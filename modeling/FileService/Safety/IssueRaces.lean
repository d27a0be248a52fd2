import FileService.Domain.Schedule
import FileService.Protocols.Issue

/-!
# Concurrent issues of upload locations

Any number of issues and deletions run in one partition. An issue looks for a
record of its file id, and later saves one; the save replaces what is there. No
issued location is lost in a run in which every save comes after a sign that its
file id is unused.
-/
namespace FileService.Safety.IssueRaces
open FileService.Common FileService.Domain FileService.Interaction FileService.App
open FileService.Infra FileService.Protocols

variable {ι : Type} {d : Deployment} {p k : String} {w w' : World}

/-- The record that a successful `Save` has written. -/
def savedLocation (p : String) : Event ports ι World → Option FileLocation
  | ⟨_, .locations (.save q location), .ok _, _⟩ => if q = p then some location else none
  | _ => none

def saves (p fileId : String) (e : Event ports ι World) : Bool :=
  (savedLocation p e).any fun location => location.fileId == fileId

/-- A `Delete` that succeeded. -/
def deletes (p fileId : String) : Event ports ι World → Bool
  | ⟨_, .locations (.delete q k), .ok _, _⟩ => q == p && k == fileId
  | _ => false

/-- The step that settles the file id of an issue: a look for its record, or a new identifier. -/
def checks (p fileId : String) : Event ports ι World → Bool
  | ⟨_, .locations (.find q k), _, _⟩ => q == p && k == fileId
  | ⟨_, .newUuidNoDash, uuid, _⟩ => uuid == fileId
  | _ => false

/-- Does the last sign about a file id, to the thread `i`, say that it is unused? The signs are
the saves and the deletions of the id, and the check of the thread itself. -/
def shownUnused [DecidableEq ι] (p fileId : String) (i : ι) : History ports ι World → Bool
  | [] => false
  | e :: h =>
    if saves p fileId e then false
    else if deletes p fileId e then true
    else if e.thread = i ∧ checks p fileId e then (e.before.locations.byFileId p fileId).isNone
    else shownUnused p fileId i h

/-- Every save comes after a sign that its file id is unused. -/
def undisturbed [DecidableEq ι] (p : String) : History ports ι World → Bool
  | [] => true
  | e :: h =>
    ((savedLocation p e).all fun location => shownUnused p location.fileId e.thread h) &&
      undisturbed p h

section Effects
variable {i : ι}

theorem locations_of_keeps {op : Port} {r : op.Reply} (hexec : World.Exec d .lostOnly w op r w')
    (hop : KeepsLocations op) : w'.locations = w.locations := by
  cases op with
  | metadata call => exact hexec.metadata_frame.1
  | blobs store call => exact hexec.blobs_frame.2.2
  | locations call =>
    cases call with
    | save q location => exact False.elim hop
    | updateSignedUrl q id url at_ => exact False.elim hop
    | delete q id => exact False.elim hop
    | find q id => exact (hexec.quiet trivial).locations
    | findByFileSource q fs => exact (hexec.quiet trivial).locations
    | list q query => exact (hexec.quiet trivial).locations
  | _ => exact (hexec.quiet trivial).locations

theorem byFileId_save {location : FileLocation} {r : Result Unit}
    (hexec : World.Exec d .lostOnly w (.locations (.save p location)) r w') :
    w'.locations.byFileId p k =
      if r.isOk ∧ location.fileId = k then some location else w.locations.byFileId p k := by
  rcases hexec.location_cases with ⟨hw, e, rfl⟩ | ⟨hw, rfl | ⟨hfault, -⟩⟩
  · simp [hw]
  · rcases w.locations.save_cases p location with ⟨e, hsave⟩ | ⟨hfs, hfree, hsave⟩
    · simp [hw, World.locationCall, hsave]
    · simp only [hw, World.locationCall, hsave, InMemoryLocationRepository.byFileId_put]
      simp
  · exact False.elim hfault

theorem byFileId_delete {fileId : String} {r : Result Unit}
    (hexec : World.Exec d .lostOnly w (.locations (.delete p fileId)) r w') :
    w'.locations.byFileId p k =
      if r.isOk ∧ fileId = k then none else w.locations.byFileId p k := by
  rcases hexec.location_cases with ⟨hw, e, rfl⟩ | ⟨hw, rfl | ⟨hfault, -⟩⟩
  · simp [hw]
  · rcases w.locations.delete_cases p fileId with ⟨-, e, hdel⟩ | ⟨old, hold, hok, hids, -⟩
    · simp [hw, World.locationCall, hdel]
    · simp [hw, World.locationCall, hids, hok]
  · exact False.elim hfault

/-- The event has the effect on the records of the partition that it tells of. -/
def Recorded (p : String) (e : Event ports ι World) (w' : World) : Prop :=
  ∀ k, w'.locations.byFileId p k =
    if saves p k e then savedLocation p e
    else if deletes p k e then none
    else e.before.locations.byFileId p k

theorem recorded_step {op : Port} {r : op.Reply} {φ φ' : IssuePhase}
    (hexec : World.Exec d .lostOnly w op r w') (hstep : IssueStep p φ op r φ') :
    Recorded p (⟨i, op, r, w⟩ : Event ports ι World) w' := by
  intro k
  cases hstep with
  | keep hop =>
    rw [locations_of_keeps hexec hop]
    cases op with
    | locations call =>
      cases call with
      | save q location => exact False.elim hop
      | delete q id => exact False.elim hop
      | _ => simp [saves, savedLocation, deletes]
    | _ => simp [saves, savedLocation, deletes]
  | save =>
    rw [byFileId_save hexec]
    simp [saves, savedLocation, deletes]
  | saveFailed =>
    rw [byFileId_save hexec]
    simp [saves, savedLocation, deletes]
  | @delete _ fileId r =>
    rw [byFileId_delete hexec]
    cases r <;> simp [saves, savedLocation, deletes]

/-- A phase names a location only after its save. -/
theorem saved_of_step {op : Port} {r : op.Reply} {φ φ' : IssuePhase} {location : FileLocation}
    (hstep : IssueStep p φ op r φ') (hφ' : φ' = .saved location) :
    φ = .saved location ∨ savedLocation p (⟨i, op, r, w⟩ : Event ports ι World) = some location := by
  cases hstep with
  | keep hop => exact .inl hφ'
  | delete => exact .inl hφ'
  | saveFailed => cases hφ'
  | save =>
    cases hφ'
    exact .inr (by simp [savedLocation])

end Effects

section Invariant
variable {h : History ports ι World} {location : FileLocation} {e : Event ports ι World}

/-- The record of a successful save is there until a deletion of its file id. -/
def Standing (p : String) (h : History ports ι World) (w : World) : Prop :=
  ∀ newer e older location, h = newer ++ e :: older → savedLocation p e = some location →
    (∃ x ∈ newer, deletes p location.fileId x = true) ∨
      w.locations.byFileId p location.fileId = some location

/-- Between two successful saves of one file id lies a deletion of it. -/
def Apart (p : String) (h : History ports ι World) : Prop :=
  ∀ newer e between e' older k, h = newer ++ e :: (between ++ e' :: older) →
    saves p k e = true → saves p k e' = true → ∃ x ∈ between, deletes p k x = true

theorem saves_iff {k : String} :
    saves p k e = true ↔ ∃ location, savedLocation p e = some location ∧ location.fileId = k := by
  simp [saves, Option.any_eq_true]

theorem shownUnused_cons [DecidableEq ι] {i : ι} (hrow : Recorded p e w')
    (hunused : shownUnused p k i h = true → e.before.locations.byFileId p k = none)
    (hshown : shownUnused p k i (e :: h) = true) : w'.locations.byFileId p k = none := by
  rw [hrow]
  unfold shownUnused at hshown
  split_ifs at hshown with hsaves hdeletes hcheck
  · rw [if_neg hsaves, if_pos hdeletes]
  · rw [if_neg hsaves, if_neg hdeletes]
    exact Option.isNone_iff_eq_none.mp hshown
  · rw [if_neg hsaves, if_neg hdeletes]
    exact hunused hshown

theorem Standing.cons (hinv : Standing p h e.before) (hrow : Recorded p e w')
    (hfree : ∀ location, savedLocation p e = some location →
      e.before.locations.byFileId p location.fileId = none) : Standing p (e :: h) w' := by
  intro newer e₀ older location hsplit hlocation
  cases newer with
  | nil =>
    cases hsplit
    right
    rw [hrow, if_pos (saves_iff.mpr ⟨location, hlocation, rfl⟩), hlocation]
  | cons x newer =>
    obtain ⟨rfl, htail⟩ := List.cons.inj hsplit
    rcases hinv newer e₀ older location htail hlocation with ⟨y, hy, hdeletes⟩ | hstands
    · exact .inl ⟨y, List.mem_cons_of_mem _ hy, hdeletes⟩
    · by_cases hdeletes : deletes p location.fileId e = true
      · exact .inl ⟨e, List.mem_cons_self, hdeletes⟩
      · right
        rw [hrow, if_neg, if_neg hdeletes, hstands]
        intro hsaves
        obtain ⟨other, hother, hid⟩ := saves_iff.mp hsaves
        have hnone := hfree other hother
        rw [hid, hstands] at hnone
        cases hnone

theorem Apart.cons (hinv : Apart p h) (hstanding : Standing p h e.before)
    (hfree : ∀ location, savedLocation p e = some location →
      e.before.locations.byFileId p location.fileId = none) : Apart p (e :: h) := by
  intro newer e₁ between e₀ older k hsplit hsaves hsaved
  cases newer with
  | cons x newer =>
    exact hinv newer e₁ between e₀ older k (List.cons.inj hsplit).2 hsaves hsaved
  | nil =>
    cases hsplit
    obtain ⟨location, hlocation, rfl⟩ := saves_iff.mp hsaves
    obtain ⟨earlier, hearlier, hid⟩ := saves_iff.mp hsaved
    rcases hstanding between e₀ older earlier rfl hearlier with hdeleted | hstands
    · rwa [hid] at hdeleted
    · rw [hid, hfree location hlocation] at hstands
      cases hstands

variable [DecidableEq ι] {φ : ι → IssuePhase}

/-- What the events tell about the records of a partition. -/
structure Told (p : String) (φ : ι → IssuePhase) (h : History ports ι World) (w : World) : Prop where
  unused : ∀ i k, shownUnused p k i h = true → w.locations.byFileId p k = none
  standing : Standing p h w
  apart : Apart p h
  saved : ∀ i location, φ i = .saved location →
    ∃ e ∈ h, e.thread = i ∧ savedLocation p e = some location

theorem told_start (w : World) : Told p (fun _ : ι => .unsaved) [] w where
  unused := nofun
  standing := by simp [Standing]
  apart := by simp [Apart]
  saved := nofun

theorem Told.step (hinv : Told p φ h w) {i : ι} {op : Port} {r : op.Reply} {φ' : IssuePhase}
    (hexec : World.Exec d .lostOnly w op r w') (hstep : IssueStep p (φ i) op r φ')
    (hsave : ∀ location, savedLocation p (⟨i, op, r, w⟩ : Event ports ι World) = some location →
      shownUnused p location.fileId i h = true) :
    Told p (Function.update φ i φ') (⟨i, op, r, w⟩ :: h) w' := by
  have hrow : Recorded p (⟨i, op, r, w⟩ : Event ports ι World) w' := recorded_step hexec hstep
  have hfree : ∀ location, savedLocation p (⟨i, op, r, w⟩ : Event ports ι World) = some location →
      w.locations.byFileId p location.fileId = none := fun location hlocation =>
    hinv.unused i location.fileId (hsave location hlocation)
  constructor
  · exact fun j k => shownUnused_cons hrow (hinv.unused j k)
  · exact Standing.cons hinv.standing hrow hfree
  · exact Apart.cons hinv.apart hinv.standing hfree
  · intro j location hj
    by_cases hji : j = i
    · subst hji
      rw [Function.update_self] at hj
      rcases saved_of_step hstep hj with hbefore | hnow
      · obtain ⟨e, he, hthread, hsaved⟩ := hinv.saved j location hbefore
        exact ⟨e, List.mem_cons_of_mem _ he, hthread, hsaved⟩
      · exact ⟨_, List.mem_cons_self, rfl, hnow⟩
    · rw [Function.update_of_ne hji] at hj
      obtain ⟨e, he, hthread, hsaved⟩ := hinv.saved j location hj
      exact ⟨e, List.mem_cons_of_mem _ he, hthread, hsaved⟩

theorem preserves_told (d : Deployment) (p : String) :
    Machine.Preserves (serviceMachine d .lostOnly) (fun _ : ι => IssueStep p)
      (fun h => undisturbed p h = true) (Told p) where
  step i _ _ _ _ hinv hexec hstep hcond := by
    apply hinv.step hexec hstep
    intro location hlocation
    simp only [undisturbed, Bool.and_eq_true, hlocation, Option.all_some] at hcond
    exact hcond.1
  env := by
    intro φ h w w' hinv htick
    have hsame : w'.locations = w.locations := (World.Tick.sameData htick).locations
    constructor
    · rw [hsame]
      exact hinv.unused
    · unfold Standing
      rw [hsame]
      exact hinv.standing
    · exact hinv.apart
    · exact hinv.saved

end Invariant

section Issues
variable [DecidableEq ι] {h : History ports ι World}

/-- Threads that issue and delete locations of a partition. -/
abbrev Issues (ι : Type) := Machine.Config ports ι World fun _ => Except Exit (Option LocationResult)

/-- The thread has returned this location. -/
def Returned (c : Issues ι) (i : ι) (result : LocationResult) : Prop :=
  c.threads i = .ret (.ok (some result))

/-- No returned location is lost but by a deletion, and of two with one file id, one was
saved after the deletion of the other. -/
structure NeverReplaced (p : String) (h : History ports ι World) (c : Issues ι) : Prop where
  findable : ∀ i result, Returned c i result → ∃ newer e older, h = newer ++ e :: older ∧
    e.thread = i ∧ saves p result.fileId e = true ∧
    ((∃ x ∈ newer, deletes p result.fileId x = true) ∨
      ∃ location, c.state.locations.findByFileSource p result.fileSource = .ok location ∧
        location.fileId = result.fileId)
  apart : ∀ i j result result', i ≠ j → Returned c i result → Returned c j result' →
    result.fileId = result'.fileId → ∃ newer e between e' older,
      h = newer ++ e :: (between ++ e' :: older) ∧
      (e.thread = i ∧ e'.thread = j ∨ e.thread = j ∧ e'.thread = i) ∧
      saves p result.fileId e = true ∧ saves p result.fileId e' = true ∧
      ∃ x ∈ between, deletes p result.fileId x = true

/-- Two members of a list, in the order of the list. -/
theorem exists_split_of_mem {α : Type} {xs : List α} {a b : α} (ha : a ∈ xs) (hb : b ∈ xs)
    (hne : a ≠ b) : ∃ newer x between y older, xs = newer ++ x :: (between ++ y :: older) ∧
      (x = a ∧ y = b ∨ x = b ∧ y = a) := by
  obtain ⟨newer, older, rfl⟩ := List.append_of_mem ha
  rcases List.mem_append.mp hb with hb | hb
  · obtain ⟨first, between, rfl⟩ := List.append_of_mem hb
    exact ⟨first, b, between, a, older, by simp, .inr ⟨rfl, rfl⟩⟩
  · rcases List.mem_cons.mp hb with rfl | hb
    · exact absurd rfl hne
    · obtain ⟨between, last, rfl⟩ := List.append_of_mem hb
      exact ⟨newer, a, between, b, last, by simp, .inl ⟨rfl, rfl⟩⟩

/-- Issued locations are never replaced in a run in which every save comes after a sign that its
file id is unused: a deletion of the id, or the check of the same issue, made when there was no
record; and no save of the id since. -/
theorem issues_never_replaced {requests : ι → LocationRequest} {c : Issues ι}
    (hrun : (serviceMachine d .lostOnly).Reaches
      (⟨fun i => ((requests i).action p).run, w⟩ : Issues ι) h c)
    (hundisturbed : undisturbed p h = true) : NeverReplaced p h c := by
  obtain ⟨φ, hfollows, hinv⟩ := hrun.follows (serviceMachine_honours d .lostOnly)
    (preserves_told d p) (fun hcond => (Bool.and_eq_true_iff.mp hcond).2)
    (fun i => (requests i).follows) (told_start w) hundisturbed
  have hsaved : ∀ i result, Returned c i result → ∃ e ∈ h, e.thread = i ∧
      ∃ location, savedLocation p e = some location ∧ location.fileId = result.fileId ∧
        location.fileSource = result.fileSource := by
    intro i result hresult
    have hends := hfollows i
    rw [hresult] at hends
    have hreturns : (φ i).Returns result := hends result rfl
    cases hφ : φ i with
    | unsaved =>
      rw [hφ] at hreturns
      exact False.elim hreturns
    | saved location =>
      rw [hφ] at hreturns
      obtain ⟨e, he, hthread, hsaved⟩ := hinv.saved i location hφ
      exact ⟨e, he, hthread, location, hsaved, hreturns⟩
  constructor
  · intro i result hresult
    obtain ⟨e, he, hthread, location, hlocation, hid, hsource⟩ := hsaved i result hresult
    obtain ⟨newer, older, hsplit⟩ := List.append_of_mem he
    have hsaves : saves p result.fileId e = true := saves_iff.mpr ⟨location, hlocation, hid⟩
    refine ⟨newer, e, older, hsplit, hthread, hsaves, ?_⟩
    rcases hinv.standing newer e older location hsplit hlocation with hdeleted | hstands
    · exact .inl (by rwa [hid] at hdeleted)
    · right
      refine ⟨location, ?_, hid⟩
      rw [InMemoryLocationRepository.findByFileSource_eq_ok,
        InMemoryLocationRepository.byFileSource_eq_some]
      exact ⟨hstands, hsource⟩
  · intro i j result result' hij hi hj hsame
    obtain ⟨e, he, hthread, location, hlocation, hid, -⟩ := hsaved i result hi
    obtain ⟨e', he', hthread', location', hlocation', hid', -⟩ := hsaved j result' hj
    have hne : e ≠ e' := by
      rintro rfl
      exact hij (hthread.symm.trans hthread')
    have hsaves : saves p result.fileId e = true := saves_iff.mpr ⟨location, hlocation, hid⟩
    have hsaves' : saves p result.fileId e' = true :=
      saves_iff.mpr ⟨location', hlocation', hid'.trans hsame.symm⟩
    obtain ⟨newer, x, between, y, older, hsplit, ⟨rfl, rfl⟩ | ⟨rfl, rfl⟩⟩ :=
      exists_split_of_mem he he' hne
    · exact ⟨newer, x, between, y, older, hsplit, .inl ⟨hthread, hthread'⟩, hsaves, hsaves',
        hinv.apart newer x between y older _ hsplit hsaves hsaves'⟩
    · exact ⟨newer, x, between, y, older, hsplit, .inr ⟨hthread', hthread⟩, hsaves', hsaves,
        hinv.apart newer x between y older _ hsplit hsaves' hsaves⟩

end Issues

section Runs

/-- Two issues of the file id `f`, and one deletion. -/
def sampleRequests : Option Bool → LocationRequest
  | some _ => .issue {} "u" (some "f") none
  | none => .delete "f"

def sampleIssues : Issues (Option Bool) where
  threads i := ((sampleRequests i).action "p").run
  state := { nowMillis := 1614784413120 }

abbrev IssueSchedule := List (Machine.Move (Option Bool) Choice)

def issueRun (schedule : IssueSchedule) : History ports (Option Bool) World × Issues (Option Bool) :=
  (World.driver sampleDeployment .lostOnly).replay sampleIssues schedule

theorem reaches_issueRun (schedule : IssueSchedule) :
    (serviceMachine sampleDeployment .lostOnly).Reaches sampleIssues (issueRun schedule).1
      (issueRun schedule).2 :=
  (World.driver sampleDeployment .lostOnly).reaches_replay sampleIssues schedule

def doneBy (i : Option Bool) (n : Nat) : IssueSchedule := List.replicate n (.call i (.done "a"))

/-- The second issue comes after the deletion of the first. -/
def reissue : IssueSchedule :=
  doneBy (some true) 12 ++ doneBy none 1 ++ doneBy (some false) 12

def returned? (c : Issues (Option Bool)) (i : Option Bool) : Option LocationResult :=
  match c.threads i with
  | .ret (.ok out) => out
  | _ => none

theorem reissue_neverReplaced : NeverReplaced "p" (issueRun reissue).1 (issueRun reissue).2 ∧
    (returned? (issueRun reissue).2 (some true)).isSome = true ∧
    (returned? (issueRun reissue).2 (some false)).isSome = true :=
  ⟨issues_never_replaced (reaches_issueRun reissue) (by decide +kernel), by decide +kernel,
    by decide +kernel⟩

/-- Both issues look for a record before one of them saves. -/
def racing : IssueSchedule :=
  doneBy (some true) 2 ++ .env (.clock 1 1) :: doneBy (some false) 12 ++ doneBy (some true) 12

/-- The look of the second issue fails. -/
def blind : IssueSchedule :=
  doneBy (some true) 12 ++ .env (.clock 1 1) ::
    .call (some false) (.lost (err .internal "query failed")) :: doneBy (some false) 12

/-- The thread has returned a location that is not found any more, and nothing was deleted. -/
def losesLocation (x : History ports (Option Bool) World × Issues (Option Bool))
    (i : Option Bool) : Bool :=
  (returned? x.2 i).any fun result =>
    !(x.2.state.locations.findByFileSource "p" result.fileSource).isOk &&
      x.1.all fun e => !deletes "p" result.fileId e

theorem not_neverReplaced_of_loses {x : History ports (Option Bool) World × Issues (Option Bool)}
    {i : Option Bool} (hx : losesLocation x i = true) : ¬NeverReplaced "p" x.1 x.2 := by
  intro hkept
  obtain ⟨result, hresult, hlost⟩ := (Option.any_eq_true _ _).mp hx
  simp only [Bool.and_eq_true, List.all_eq_true, Bool.not_eq_true'] at hlost
  have hreturned : Returned x.2 i result := by
    unfold returned? at hresult
    split at hresult
    · rename_i out hthread
      exact hthread.trans (by rw [hresult])
    · cases hresult
  obtain ⟨newer, e, older, hsplit, -, -, ⟨y, hy, hdel⟩ | ⟨location, hfound, -⟩⟩ :=
    hkept.findable i result hreturned
  · have hmem : y ∈ x.1 := by
      rw [hsplit]
      exact List.mem_append_left _ hy
    rw [hlost.2 y hmem] at hdel
    cases hdel
  · rw [hfound] at hlost
    cases hlost.1

/-- Two issues of one file id both return, nothing is deleted, and one of the locations is gone:
when both look before one saves, and when the second cannot look. -/
theorem issued_location_replaced :
    (returned? (issueRun racing).2 (some true)).isSome = true ∧
    ¬NeverReplaced "p" (issueRun racing).1 (issueRun racing).2 ∧
    (returned? (issueRun blind).2 (some false)).isSome = true ∧
    ¬NeverReplaced "p" (issueRun blind).1 (issueRun blind).2 := by
  have hracing : losesLocation (issueRun racing) (some false) = true := by decide +kernel
  have hblind : losesLocation (issueRun blind) (some true) = true := by decide +kernel
  exact ⟨by decide +kernel, not_neverReplaced_of_loses hracing, by decide +kernel,
    not_neverReplaced_of_loses hblind⟩

end Runs

end FileService.Safety.IssueRaces
