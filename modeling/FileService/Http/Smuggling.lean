import FileService.Http.LargeFilePlane

/-!
# Which octets are read as heads

The plane never reads a body. What it takes for the next head starts where the
last head ended, so it goes wrong as soon as a connection is kept open behind a
request that has a body, and more octets arrive.
-/
namespace FileService.Http
open FileService.Wire

def Recv.octets : Recv → List Char
  | .data octets => octets
  | _ => []

/-- What the client sends, however it is split. -/
def streamOf (calls : List Recv) : List Char := calls.flatMap Recv.octets

@[simp] theorem streamOf_cons (call : Recv) (calls : List Recv) :
    streamOf (call :: calls) = call.octets ++ streamOf calls := List.flatMap_cons

/-! ## One head -/

section Head
variable {opts : PlaneOptions} {pending received : List Char} {calls rest : List Recv}
variable {status : HeadStatus} {headEnd : Nat}

theorem octets_of_received {call : Recv} {octets : List Char} (h : call.received = .ok octets) :
    call.octets = octets := by
  cases call with
  | data o =>
    simp only [Recv.received] at h
    split at h <;> cases h
    rfl
  | timeout => cases h
  | closed => cases h

theorem no_octets_of_received {call : Recv} (h : call.received = .error status) :
    call.octets = [] ∧ ∀ headEnd, status ≠ .ok headEnd := by
  cases call with
  | data o =>
    simp only [Recv.received] at h
    split at h <;> cases h
    exact ⟨by assumption, nofun⟩
  | timeout =>
    cases h
    exact ⟨rfl, nofun⟩
  | closed =>
    cases h
    exact ⟨rfl, nofun⟩

/-- What has been received and what is still to come make up the stream. -/
theorem readHead_stream (h : readHead opts calls pending = (status, received, rest)) :
    received ++ streamOf rest = pending ++ streamOf calls := by
  induction calls generalizing pending with
  | nil =>
    rw [readHead] at h
    repeat' split at h
    all_goals cases h; rfl
  | cons call calls ih =>
    rw [readHead] at h
    split at h
    · cases h
      rfl
    · split at h
      · cases h
        rfl
      · split at h
        · rename_i octets hcall
          rw [ih h, streamOf_cons, octets_of_received hcall, List.append_assoc]
        · rename_i hcall
          cases h
          simp [(no_octets_of_received hcall).1]

theorem readHead_found (h : readHead opts calls pending = (.ok headEnd, received, rest)) :
    findText blankLine received = some headEnd := by
  induction calls generalizing pending with
  | nil =>
    rw [readHead] at h
    repeat' split at h
    all_goals cases h
    assumption
  | cons call calls ih =>
    rw [readHead] at h
    split at h
    · cases h
      assumption
    · split at h
      · cases h
      · split at h
        · exact ih h
        · rename_i hcall
          cases h
          exact absurd rfl ((no_octets_of_received hcall).2 headEnd)

theorem readHead_length (h : readHead opts calls pending = (status, received, rest)) :
    rest.length ≤ calls.length := by
  induction calls generalizing pending with
  | nil =>
    rw [readHead] at h
    repeat' split at h
    all_goals cases h; rfl
  | cons call calls ih =>
    rw [readHead] at h
    repeat' split at h
    all_goals first
      | exact (ih h).trans (Nat.le_succ _)
      | (cases h; simp)

/-- With nothing pending, a head takes a call of `recv` at least. -/
theorem readHead_calls (h : readHead opts calls [] = (.ok headEnd, received, rest)) :
    rest.length < calls.length := by
  cases calls with
  | nil =>
    rw [readHead] at h
    split at h
    · rename_i hfound
      cases hfound
    · split at h <;> cases h
  | cons call calls =>
    rw [readHead] at h
    split at h
    · rename_i hfound
      cases hfound
    · split at h
      · cases h
      · split at h
        · exact Nat.lt_succ_of_le (readHead_length h)
        · cases h
          exact Nat.lt_succ_self _

end Head

/-! ## One turn -/

section Turn
variable (plane : Plane) {c d : Connection}

theorem pending_of_answer {served : Nat} {request : Request} {pending : List Char}
    (h : (plane.answer served request pending).2 = true) : pending = [] := by
  simp only [Plane.answer, Bool.and_eq_true, List.isEmpty_iff] at h
  exact h.1.2

/-- What a turn takes from the stream, where nothing was pending. -/
structure Takes (c : Connection) (v : Visit) (next : Option Connection) : Prop where
  offset : v.offset = c.position
  octets : v.octets <+: streamOf c.calls
  handled : v.called.isSome = true → ∃ head, v.head = some head ∧ v.octets = head ++ blankLine ∧
    Wire.head? (streamOf c.calls) = some head
  stays : ∀ d, next = some d → v.called.isSome = true ∧ d.pending = [] ∧
    d.position = c.position + v.octets.length ∧ v.octets ++ streamOf d.calls = streamOf c.calls ∧
    d.calls.length < c.calls.length

theorem serveOne_takes (hpending : c.pending = []) :
    Takes c (plane.serveOne c).1 (plane.serveOne c).2 := by
  unfold Plane.serveOne
  rw [hpending]
  cases hread : readHead plane.opts c.calls [] with
  | mk status result =>
    obtain ⟨received, calls⟩ := result
    have hstream := readHead_stream hread
    rw [List.nil_append] at hstream
    have hreceived : received <+: streamOf c.calls := ⟨_, hstream⟩
    cases status with
    | closed => exact ⟨rfl, hreceived, nofun, nofun⟩
    | timeout => exact ⟨rfl, hreceived, nofun, nofun⟩
    | tooLarge => exact ⟨rfl, hreceived, nofun, nofun⟩
    | ok headEnd =>
      have hfound := readHead_found hread
      have hlength : headEnd + 4 ≤ received.length := findText_le hfound
      have hfront : received.take (headEnd + 4) <+: streamOf c.calls :=
        (List.take_prefix _ _).trans hreceived
      dsimp only
      split
      · exact ⟨rfl, hfront, nofun, nofun⟩
      · split
        · exact ⟨rfl, hfront, nofun, nofun⟩
        · constructor
          · rfl
          · exact hfront
          · intro _
            refine ⟨received.take headEnd, rfl, take_findText hfound, ?_⟩
            rw [Wire.head?, ← hstream, findText_append _ hfound, Option.map_some,
              List.take_append_of_le_length (by omega)]
          · intro d hd
            rw [Option.ite_none_right_eq_some, Option.some.injEq] at hd
            obtain ⟨hstays, rfl⟩ := hd
            have hpending := pending_of_answer plane hstays
            have hall : received.take (headEnd + 4) = received :=
              List.take_of_length_le (List.drop_eq_nil_iff.mp hpending)
            refine ⟨rfl, hpending, ?_, by rw [hall, hstream], readHead_calls hread⟩
            simp only [List.length_take]
            omega

end Turn

/-! ## The turns of a connection -/

/-- The length of the body that the head of a turn announces. -/
def Visit.framing (v : Visit) : Option Framing := (v.head.bind fields?).bind framing?

def Visit.ends (v : Visit) : Nat := v.offset + v.octets.length

/-- The turns follow each other in the stream, from `p` on; all but the last one call the
handler. -/
def Traced (stream : List Char) : Nat → List Visit → Prop
  | _, [] => True
  | p, v :: vs => v.offset = p ∧ v.octets <+: stream.drop p ∧
      (v.called.isSome = true → ∃ head, v.head = some head ∧ v.octets = head ++ blankLine ∧
        Wire.head? (stream.drop p) = some head) ∧
      (vs ≠ [] → v.called.isSome = true) ∧ Traced stream v.ends vs

theorem serveFrom_traced (plane : Plane) {stream : List Char} (fuel : Nat) {c : Connection}
    (hpending : c.pending = []) (hstream : stream.drop c.position = streamOf c.calls) :
    Traced stream c.position (plane.serveFrom fuel c) := by
  induction fuel generalizing c with
  | zero => trivial
  | succ fuel ih =>
    rw [Plane.serveFrom]
    split
    · trivial
    · have h := serveOne_takes plane hpending
      dsimp only
      refine ⟨h.offset, hstream ▸ h.octets, hstream ▸ h.handled, ?_, ?_⟩
      · intro hmore
        split at hmore
        · rename_i d hd
          exact (h.stays d hd).1
        · exact absurd rfl hmore
      · split
        · rename_i d hd
          obtain ⟨-, hempty, hposition, hrest, -⟩ := h.stays d hd
          rw [Visit.ends, h.offset, ← hposition]
          apply ih hempty
          rw [hposition, ← List.drop_drop, hstream, ← hrest, List.drop_left]
        · trivial

/-- No octet of the body that an earlier head announces is taken as part of a head. -/
def NoBodyRead (stream : List Char) (vs : List Visit) : Prop :=
  vs.Pairwise fun v w => ∀ f, v.framing = some f → ∀ q, w.offset ≤ q → q < w.ends →
    ¬f.Owns (stream.drop v.ends) (q - v.ends)

/-- The handler is called only for heads that a reader of the stream finds as well. -/
def HandledAreHeads (stream : List Char) (vs : List Visit) : Prop :=
  ∀ v ∈ vs, v.called.isSome = true → ∃ head, v.head = some head ∧ HeadAt stream v.offset head

/-- What may come after a turn that has left the connection open: nothing more is received,
unless no body was announced; and if its length cannot be told, nothing more is handled. -/
def MayFollow (v w : Visit) : Prop :=
  (∀ f, v.framing = some f → f.Empty ∨ w.octets = []) ∧ (v.framing = none → w.called = none)

/-- The heads that are handled are well formed, and no body lies between them. -/
def WellFramed (vs : List Visit) : Prop :=
  (∀ v ∈ vs, v.called.isSome = true → ∃ head, v.head = some head ∧ (fields? head).isSome = true) ∧
    vs.IsChain MayFollow

section Turns
variable {stream : List Char} {p : Nat} {v w : Visit} {vs : List Visit}

theorem Traced.last_of_not_called (h : Traced stream p (v :: vs)) (hnot : v.called = none) :
    vs = [] := by
  by_contra hne
  have hcalled := h.2.2.2.1 hne
  simp [hnot] at hcalled

theorem Traced.not_called_of_nothing (h : Traced stream p (v :: vs)) (hnothing : v.octets = []) :
    v.called = none := by
  cases hcalled : v.called with
  | none => rfl
  | some request =>
    obtain ⟨head, -, hoctets, -⟩ := h.2.2.1 (by simp [hcalled])
    simp [hnothing, blankLine] at hoctets

/-- Behind a turn with a body, or of unknown length, there is at most a turn without a head. -/
theorem Traced.last_of_mayFollow (h : Traced stream p (w :: vs)) (hfollow : MayFollow v w)
    (hbody : ∀ f, v.framing = some f → ¬f.Empty) : vs = [] ∧ w.called = none := by
  have hnot : w.called = none := by
    cases hframing : v.framing with
    | none => exact hfollow.2 hframing
    | some f =>
      exact h.not_called_of_nothing ((hfollow.1 f hframing).resolve_left (hbody f hframing))
  exact ⟨h.last_of_not_called hnot, hnot⟩

/-- Behind a head without a body the next message starts. -/
theorem next_of_empty {head : List Char} {f : Framing}
    (hfound : Wire.head? (stream.drop v.offset) = some head) (hv : v.head = some head)
    (ho : v.octets = head ++ blankLine) (hf : v.framing = some f) (hempty : f.Empty) :
    next? stream v.offset = some v.ends := by
  have hframing : (fields? head).bind framing? = some f := by simpa [Visit.framing, hv] using hf
  simp [next?, hfound, hframing, hempty.ends, Visit.ends, ho, blankLine, Nat.add_assoc]

theorem handledAreHeads_of_wellFramed (h : Traced stream p vs) (hframed : WellFramed vs)
    (hstarts : Starts stream p) : HandledAreHeads stream vs := by
  induction vs generalizing p with
  | nil => exact List.forall_mem_nil _
  | cons v vs ih =>
    obtain ⟨rfl, hoctets, hhandled, hmore, hrest⟩ := h
    have hhead : v.called.isSome = true → ∃ head, v.head = some head ∧
        v.octets = head ++ blankLine ∧ HeadAt stream v.offset head := by
      intro hcalled
      obtain ⟨head, hv, ho, hfound⟩ := hhandled hcalled
      obtain ⟨head', hv', hfields⟩ := hframed.1 v List.mem_cons_self hcalled
      obtain rfl : head = head' := Option.some.inj (hv.symm.trans hv')
      exact ⟨head, hv, ho, hstarts, hfound, hfields⟩
    refine List.forall_mem_cons.mpr ⟨fun hcalled => ?_, ?_⟩
    · obtain ⟨head, hv, -, hat⟩ := hhead hcalled
      exact ⟨head, hv, hat⟩
    · cases vs with
      | nil => exact List.forall_mem_nil _
      | cons w rest =>
        obtain ⟨hfollow, hchain⟩ := List.isChain_cons_cons.mp hframed.2
        have hframed' : WellFramed (w :: rest) :=
          ⟨fun u hu => hframed.1 u (List.mem_cons_of_mem _ hu), hchain⟩
        by_cases hempty : ∃ f, v.framing = some f ∧ f.Empty
        · obtain ⟨f, hf, hempty⟩ := hempty
          obtain ⟨head, hv, ho, hat⟩ := hhead (hmore (List.cons_ne_nil _ _))
          exact ih hrest hframed' (hat.1.next (next_of_empty hat.2.1 hv ho hf hempty))
        · have hlast := hrest.last_of_mayFollow hfollow
            (fun f hf he => hempty ⟨f, hf, he⟩)
          obtain ⟨rfl, hnot⟩ := hlast
          simp [hnot]

theorem noBodyRead_of_wellFramed (h : Traced stream p vs) (hframed : WellFramed vs) :
    NoBodyRead stream vs := by
  induction vs generalizing p with
  | nil => exact List.Pairwise.nil
  | cons v vs ih =>
    cases vs with
    | nil => exact List.pairwise_singleton _ _
    | cons w rest =>
      obtain ⟨-, -, -, -, hrest⟩ := h
      obtain ⟨hfollow, hchain⟩ := List.isChain_cons_cons.mp hframed.2
      have hframed' : WellFramed (w :: rest) :=
        ⟨fun u hu => hframed.1 u (List.mem_cons_of_mem _ hu), hchain⟩
      refine List.Pairwise.cons (fun u hu f hf q hle hlt => ?_) (ih hrest hframed')
      by_cases hempty : f.Empty
      · exact hempty.not_owns _ _
      · have hnone : ∀ g, v.framing = some g → ¬g.Empty := by
          rintro g hg
          rwa [Option.some.inj (hg.symm.trans hf)]
        obtain ⟨rfl, -⟩ := hrest.last_of_mayFollow hfollow hnone
        obtain rfl : u = w := by simpa using hu
        have hnothing := (hfollow.1 f hf).resolve_left hempty
        rw [Visit.ends, hnothing, List.length_nil] at hlt
        omega

/-- A turn that goes on reading behind a body takes an octet of it, or a head that is none. -/
theorem mayFollow_of_safe (h : Traced stream p (v :: w :: vs))
    (hbody : NoBodyRead stream (v :: w :: vs)) (hheads : HandledAreHeads stream (v :: w :: vs)) :
    MayFollow v w := by
  obtain ⟨-, -, hhandled, hmore, hw, -⟩ := h
  have hcalled := hmore (List.cons_ne_nil _ _)
  obtain ⟨head, hv, ho, -⟩ := hhandled hcalled
  constructor
  · intro f hf
    by_cases hnothing : w.octets = []
    · exact .inr hnothing
    · have hpos := List.length_pos_iff.mpr hnothing
      have hnot := (List.pairwise_cons.mp hbody).1 w List.mem_cons_self f hf w.offset le_rfl
        (by simp only [Visit.ends]; omega)
      rw [hw, Nat.sub_self] at hnot
      exact .inl (Framing.empty_of_not_owns hnot)
  · intro hf
    cases hw' : w.called with
    | none => rfl
    | some request =>
      obtain ⟨head', hv', hat⟩ := hheads v List.mem_cons_self hcalled
      obtain ⟨_, _, hat'⟩ := hheads w (by simp) (by simp [hw'])
      have hlt : v.offset < w.offset := by
        rw [hw, Visit.ends, ho]
        simp [blankLine]
      obtain ⟨q, hnext, -⟩ := hat.1.next_le hat'.1 hlt
      have hframing : (fields? head').bind framing? = none := by
        simpa [Visit.framing, hv'] using hf
      simp [next?, hat.2.1, hframing] at hnext

theorem wellFramed_of_safe (h : Traced stream p vs) (hbody : NoBodyRead stream vs)
    (hheads : HandledAreHeads stream vs) : WellFramed vs := by
  constructor
  · intro v hv hcalled
    obtain ⟨head, hhead, hat⟩ := hheads v hv hcalled
    exact ⟨head, hhead, hat.2.2⟩
  · induction vs generalizing p with
    | nil => exact .nil
    | cons v vs ih =>
      cases vs with
      | nil => exact .singleton _
      | cons w rest =>
        have hfollow := mayFollow_of_safe h hbody hheads
        refine List.isChain_cons_cons.mpr ⟨hfollow, ih h.2.2.2.2 ?_ ?_⟩
        · exact (List.pairwise_cons.mp hbody).2
        · exact fun u hu => hheads u (List.mem_cons_of_mem _ hu)

end Turns

/-- The fuel of a connection is enough: more of it changes nothing. -/
theorem serveFrom_enough (plane : Plane) {fuel : Nat} {c : Connection} (hpending : c.pending = [])
    (hfuel : c.calls.length < fuel) : plane.serveFrom (fuel + 1) c = plane.serveFrom fuel c := by
  induction fuel generalizing c with
  | zero => omega
  | succ fuel ih =>
    rw [Plane.serveFrom, Plane.serveFrom]
    split
    · rfl
    · have h := serveOne_takes plane hpending
      dsimp only
      cases hd : (plane.serveOne c).2 with
      | none => rfl
      | some d =>
        obtain ⟨-, hempty, -, -, hless⟩ := h.stays d hd
        exact congrArg (List.cons _) (ih hempty (by omega))

/-- The plane takes no octet of a body for a head, and handles only heads that are heads, exactly
when the heads it handles are well formed and nothing is received behind one that announces a
body. -/
theorem serveConnection_safe_iff (plane : Plane) (calls : List Recv) :
    (NoBodyRead (streamOf calls) (plane.serveConnection calls) ∧
        HandledAreHeads (streamOf calls) (plane.serveConnection calls)) ↔
      WellFramed (plane.serveConnection calls) := by
  have htraced : Traced (streamOf calls) 0 (plane.serveConnection calls) :=
    serveFrom_traced plane (calls.length + 1) (c := { calls }) rfl rfl
  constructor
  · rintro ⟨hbody, hheads⟩
    exact wellFramed_of_safe htraced hbody hheads
  · intro hframed
    exact ⟨noBodyRead_of_wellFramed htraced hframed,
      handledAreHeads_of_wellFramed htraced hframed starts_zero⟩

/-! ## A download with a body -/

section Sample

def samplePlane : Plane where
  opts := {}
  handler := fun _ => .returns {}
  uuid := fun _ => "u1"
  kernel := fun _ _ => 0
  sends := fun _ => true
  stopRequested := fun _ => false

/-- The head of a download that announces a body, and its body in a segment of its own. -/
def sampleSegments : List Recv :=
  [.data "GET /api/file/v1/transfer/a HTTP/1.1\r\nContent-Length: 40\r\n\r\n".toList,
   .data "GET /api/file/v1/transfer/b HTTP/1.1\r\n\r\n".toList]

def spans (vs : List Visit) : List (Nat × Nat × Option Framing) :=
  vs.map fun v => (v.offset, v.ends, v.framing)

theorem sampleSegments_spans :
    spans (samplePlane.serveConnection sampleSegments) =
      [(0, 60, some (.length 40)), (60, 100, some .bodiless), (100, 100, none)] := by
  decide +kernel

/-- The body of a download is served as the next request. -/
theorem body_read_as_head :
    ¬∀ (plane : Plane) (calls : List Recv),
      NoBodyRead (streamOf calls) (plane.serveConnection calls) ∧
        HandledAreHeads (streamOf calls) (plane.serveConnection calls) := by
  intro h
  obtain ⟨hbody, -⟩ := h samplePlane sampleSegments
  have hspans : (spans (samplePlane.serveConnection sampleSegments)).Pairwise fun a b =>
      ∀ f, a.2.2 = some f → ∀ q, b.1 ≤ q → q < b.2.1 →
        ¬f.Owns ((streamOf sampleSegments).drop a.2.1) (q - a.2.1) :=
    List.pairwise_map.mpr hbody
  rw [sampleSegments_spans] at hspans
  have hfirst := (List.pairwise_cons.mp hspans).1 _ List.mem_cons_self _ rfl 60 le_rfl (by decide)
  exact hfirst (Nat.zero_lt_succ 39)

end Sample

end FileService.Http
