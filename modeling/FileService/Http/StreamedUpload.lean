import FileService.Http.Dispatch
import FileService.Interaction.Machine

/-!
# What a successful upload says

While nothing has been refused, the octets handed to the handler, those in the
buffer and those on their way into it make up what the library has delivered.
After the two threads have ended, an answer of success leaves no octet behind.
The member for body errors is shared by all dispatches; it never holds a
success while somebody may read it.
-/
namespace FileService.Http
open FileService.Common FileService.Domain FileService.Interaction

/-! ## Accounts of the two threads -/

namespace Streaming
variable {body : Bytes} {s s₀ s' : Streaming}

def Flagged (s : Streaming) : Prop := s.counting.timedOut = true ∨ s.counting.exceeded = true

structure Accounted (limit : Int) (s : Streaming) : Prop where
  consumed : s.pump.consumed = s.taken.length
  limited : s.counting.limit = limit
  within : 0 < limit → s.counting.read ≤ limit
  counted : ¬s.Flagged → s.counting.read = s.delivered.length
  given : ¬s.Flagged → s.taken ++ s.pump.buf <+: s.delivered
  flowing : ¬s.Flagged → s.pump.stop = false → s.pump.finished = false →
    s.taken ++ s.pump.buf ++ s.pushing.getD [] = s.delivered

variable {limit : Int}

theorem Accounted.arrives (h : s.Accounted limit) (data : Bytes) (now : Int)
    (hpushing : s.pushing = none) :
    Accounted limit
      { s with
        counting := (s.counting.receive data now).1
        pushing := if (s.counting.receive data now).2 = true then some data else none
        delivered := s.delivered ++ data
        refused := s.refused || !(s.counting.receive data now).2 } := by
  rcases receive_cases s.counting data now with ⟨hok, hlimit, hread, hflag⟩ |
    ⟨hok, hlimit, hread, htimed, hexceeded, hwithin⟩
  · have hflagged : ∀ s' : Streaming, s'.counting = (s.counting.receive data now).1 →
        s'.Flagged := fun s' hs' => by simpa [Flagged, hs'] using hflag
    exact ⟨h.consumed, hlimit.trans h.limited, fun hpos => hread ▸ h.within hpos,
      fun hnot => absurd (hflagged _ rfl) hnot, fun hnot => absurd (hflagged _ rfl) hnot,
      fun hnot => absurd (hflagged _ rfl) hnot⟩
  · have hnot : ∀ s' : Streaming, s'.counting = (s.counting.receive data now).1 →
        ¬s'.Flagged → ¬s.Flagged := fun s' hs' => by simp [Flagged, hs', htimed, hexceeded]
    constructor
    · exact h.consumed
    · exact hlimit.trans h.limited
    · intro hpos
      rw [hread]
      exact h.limited ▸ hwithin (h.limited ▸ hpos)
    · intro hflag
      rw [hread, h.counted (hnot _ rfl hflag)]
      simp
    · intro hflag
      exact (h.given (hnot _ rfl hflag)).trans (List.prefix_append _ _)
    · intro hflag hstop hfinished
      have hflow := h.flowing (hnot _ rfl hflag) hstop hfinished
      simp only [hpushing, Option.getD_none, List.append_nil] at hflow
      simp [hok, ← hflow]

theorem Accounted.pushes (h : s.Accounted limit) {data : Bytes} {p : BodyPump} {ok : Bool}
    (hpushing : s.pushing = some data) (hpush : s.pump.push data = some (p, ok))
    (hfinished : s.pump.finished = false) :
    Accounted limit { s with pump := p, pushing := none, refused := s.refused || !ok } := by
  unfold BodyPump.push at hpush
  split at hpush
  case isTrue hstop =>
    cases hpush
    exact ⟨h.consumed, h.limited, h.within, h.counted, h.given,
      fun _ hrunning => absurd (hstop.symm.trans hrunning) (by decide)⟩
  case isFalse hstop =>
    split at hpush
    · cases hpush
      have hflow : ¬s.Flagged → s.taken ++ (s.pump.buf ++ data) = s.delivered := by
        intro hflag
        simpa [hpushing] using h.flowing hflag (by simpa using hstop) hfinished
      exact ⟨h.consumed, h.limited, h.within, h.counted, fun hflag => hflow hflag ▸ List.prefix_rfl,
        fun hflag _ _ => by simpa using hflow hflag⟩
    · cases hpush

theorem Accounted.read (h : s.Accounted limit) {capacity : Nat} {p : BodyPump}
    {r : Result Bytes} {bytes : Bytes} (hread : s.pump.read capacity = some (p, r))
    (hbytes : r = .ok bytes ∨ (∃ e, r = .error e) ∧ bytes = []) :
    Accounted limit { s with pump := p, taken := s.taken ++ bytes } := by
  unfold BodyPump.read at hread
  split at hread
  case isTrue hbuf =>
    cases hread
    obtain rfl : s.pump.buf.take capacity = bytes := by simpa using hbytes
    have hsame : s.taken ++ s.pump.buf.take capacity ++ s.pump.buf.drop capacity =
        s.taken ++ s.pump.buf := by simp
    constructor
    · simp [h.consumed]
    · exact h.limited
    · exact h.within
    · exact h.counted
    · intro hflag
      exact hsame ▸ h.given hflag
    · intro hflag hstop hfinished
      exact hsame ▸ h.flowing hflag hstop hfinished
  case isFalse hbuf =>
    have hempty : p = s.pump ∧ bytes = [] := by
      split at hread
      · split at hread <;> cases hread
        exact ⟨rfl, by simpa using hbytes⟩
      · split at hread <;> cases hread <;> exact ⟨rfl, by simpa using hbytes⟩
    obtain ⟨rfl, rfl⟩ := hempty
    simpa using h

/-- The pump does not end while a push waits, and every step keeps the accounts. -/
theorem Accounted.step (h : s.Accounted limit)
    (hwaits : s.pushing ≠ none → s.pump.finished = false) (hstep : Step body s s') :
    s'.Accounted limit ∧ (s'.pushing ≠ none → s'.pump.finished = false) := by
  cases hstep with
  | arrives data now hpushing hfinished =>
    exact ⟨h.arrives data now hpushing, fun _ => hfinished⟩
  | pushes hpushing hpush =>
    have hfinished := hwaits (by simp [hpushing])
    exact ⟨h.pushes hpushing hpush hfinished, fun hne => absurd rfl hne⟩
  | readerReturns ok hpushing hfinished hwhole =>
    exact ⟨⟨h.consumed, h.limited, h.within, h.counted, h.given, nofun⟩,
      fun hne => absurd hpushing hne⟩
  | readerThrows hfinished =>
    exact ⟨⟨h.consumed, h.limited, h.within, h.counted, h.given, nofun⟩, fun hne => absurd rfl hne⟩
  | reads capacity hhandled hread =>
    exact ⟨h.read hread (.inl rfl), fun hne => (BodyPump.read_finished hread).trans (hwaits hne)⟩
  | readFails capacity hhandled hread =>
    have hkept := h.read hread (.inr ⟨⟨_, rfl⟩, rfl⟩)
    rw [List.append_nil] at hkept
    exact ⟨hkept, fun hne => (BodyPump.read_finished hread).trans (hwaits hne)⟩
  | handlerEnds outcome hhandled =>
    exact ⟨⟨h.consumed, h.limited, h.within, h.counted, h.given, h.flowing⟩, hwaits⟩
  | stops hhandled =>
    exact ⟨⟨h.consumed, h.limited, h.within, h.counted, h.given, nofun⟩, hwaits⟩

theorem accounted_start (counting : CountingReceiver) (capacity : Nat)
    (hread : counting.read = 0) : (start counting capacity).Accounted counting.limit :=
  ⟨rfl, rfl, fun hpos => hread.le.trans hpos.le, fun _ => hread, fun _ => List.nil_prefix,
    fun _ _ _ => rfl⟩

theorem Reaches.accounted {counting : CountingReceiver} {capacity : Nat}
    (h : Reaches body (start counting capacity) s) (hread : counting.read = 0) :
    s.Accounted counting.limit ∧ (s.pushing ≠ none → s.pump.finished = false) := by
  induction h with
  | refl => exact ⟨accounted_start counting capacity hread, fun hne => absurd rfl hne⟩
  | step _ hstep ih => exact ih.1.step ih.2 hstep

/-- Nothing flagged and everything counted has been consumed: the handler has it all. -/
theorem Accounted.taken_eq (h : s.Accounted limit) (hflag : ¬s.Flagged)
    (hconsumed : (s.pump.consumed : Int) = s.counting.read) : s.taken = s.delivered := by
  have hlength : s.taken.length = s.delivered.length := by
    have hcounted := h.counted hflag
    rw [← hconsumed, h.consumed] at hcounted
    exact_mod_cast hcounted
  have hprefix : s.taken <+: s.delivered := (List.prefix_append _ _).trans (h.given hflag)
  exact hprefix.eq_of_length hlength

end Streaming

/-! ## The answer -/

section Answer
variable {srv : ServerOptions} {req : Request} {route : Route} {counting : CountingReceiver}
variable {readerOk : Bool} {now : Int} {res bodyError : Response} {hreq : LibraryRequest}

theorem not_succeeded_error {status : Int} (detail : String) (h : 300 ≤ status) :
    ¬(srv.error status detail).succeeded = true :=
  not_succeeded_errorResponse _ _ h

theorem not_succeeded_bodyError
    (h : handleBodyError srv req route counting readerOk now = some bodyError) :
    ¬bodyError.succeeded = true := by
  unfold handleBodyError at h
  split at h
  · cases h
    exact not_succeeded_error _ (by decide)
  split at h
  · cases h
    apply not_succeeded_error
    split <;> decide
  split at h
  · cases h
    exact not_succeeded_error _ (by decide)
  split at h
  · cases h
    exact not_succeeded_error _ (by decide)
  split at h
  · cases h
    exact not_succeeded_error _ (by decide)
  · cases h

theorem of_handleBodyError_none
    (h : handleBodyError srv req route counting readerOk now = none) :
    counting.timedOut = false ∧ counting.exceeded = false ∧ readerOk = true ∧
      (0 ≤ req.contentLength → counting.read = req.contentLength) := by
  unfold handleBodyError at h
  repeat' split at h
  all_goals first | exact absurd h (Option.some_ne_none _) | skip
  rename_i htimed hexceeded hidle hlength hreader
  simp only [Bool.not_eq_true, not_and, not_not] at htimed hexceeded hlength hreader
  exact ⟨htimed, hexceeded, by simpa using hreader, hlength⟩

/-- Neither the range nor the correlation id makes a success of a failure. -/
theorem succeeded_of_conclude (h : (conclude srv hreq req res).1.succeeded = true) :
    res.succeeded = true := by
  rw [succeeded_iff, conclude_status] at h
  rcases normalizeRange_cases srv hreq res with hsame | hunmet
  · rwa [hsame, ← succeeded_iff] at h
  · omega

theorem not_succeeded_of_refused {routes : List Route} {hasReader : Bool}
    (h : checkHead srv routes hasReader req = .error res) : ¬res.succeeded = true := by
  unfold checkHead at h
  repeat' split at h
  all_goals cases h
  all_goals exact not_succeeded_error _ (by decide)

end Answer
/-! ## Any number of dispatches at a time -/

/-- The member `last_body_error`: what is stored is what is read. -/
def memberMachine : Machine members Response where
  exec s op r s' :=
    match op, r with
    | .setLastBodyError res, _ => s' = res
    | .lastBodyError, r => r = s ∧ s' = s
  env _ _ := False

section Concurrent
variable {ι : Type} (srv : ServerOptions) (routes : List Route) (x : ι → Exchange)

abbrev Serving (ι : Type) :=
  Machine.Config members ι Response fun _ => Response × LibraryRequest

/-- All the requests, before the first step of any of them. -/
def serving : Serving ι :=
  ⟨fun i => dispatch srv routes (x i), {}⟩

/-- How far a dispatch has come with the member. -/
inductive MemberPhase where
  | idle
  | recorded
  | read (res : Response)

def memberProtocol : Protocol members MemberPhase := fun φ op r φ' =>
  match op, r with
  | .setLastBodyError res, _ => ¬res.succeeded = true ∧ φ' = .recorded
  | .lastBodyError, r => φ = .recorded ∧ φ' = .read r

/-- No success is ever stored, so none is ever read. -/
structure MemberInv (φ : ι → MemberPhase) (last : Response) : Prop where
  last : ∀ i, φ i ≠ .idle → ¬last.succeeded = true
  read : ∀ i res, φ i = .read res → ¬res.succeeded = true

variable [DecidableEq ι]

theorem memberInv_preserved :
    Machine.Preserves memberMachine (fun _ : ι => memberProtocol) (fun _ => True)
      fun φ _ last => MemberInv φ last where
  step := by
    intro φ h last i op r last' φ' hinv hexec hstep _
    cases op with
    | setLastBodyError res =>
      obtain rfl : last' = res := hexec
      obtain ⟨hfailed, rfl⟩ := hstep
      constructor
      · exact fun _ _ => hfailed
      · intro j res hj
        by_cases hji : j = i
        · subst hji
          simp at hj
        · rw [Function.update_of_ne hji] at hj
          exact hinv.read j res hj
    | lastBodyError =>
      obtain ⟨hread, rfl⟩ := hexec
      obtain ⟨hrecorded, rfl⟩ := hstep
      have hfailed := hinv.last i (by simp [hrecorded])
      constructor
      · exact fun _ _ => hfailed
      · intro j res hj
        by_cases hji : j = i
        · subst hji
          rw [Function.update_self, MemberPhase.read.injEq] at hj
          exact hj ▸ hread ▸ hfailed
        · rw [Function.update_of_ne hji] at hj
          exact hinv.read j res hj
  env := fun _ h => h.elim

omit [DecidableEq ι]

/-- The two threads of a streamed body have run to their ends. -/
def Exchange.Streams (x : Exchange) (srv : ServerOptions) (route : Route) (body : Bytes) : Prop :=
  Streaming.Reaches body
    (Streaming.start (receiverFor srv route x.startedAt) (pumpCapacity srv)) x.streaming ∧
  x.streaming.Ended

/-- What a success says about the body: the handler has had every octet of it, as many as were
declared and no more than the limit. -/
structure Told (route : Route) (req : Request) (s : Streaming) : Prop where
  whole : s.taken = s.delivered
  declared : 0 ≤ req.contentLength → s.taken.length = req.contentLength
  within : 0 < route.options.maxBodyBytes → s.taken.length ≤ route.options.maxBodyBytes

variable {srv} {routes} {ex : Exchange} {req : Request} {route : Route} {body : Bytes}

theorem told_of_end (hends : ex.Streams srv route body)
    (hbody : handleBodyError srv req route ex.streaming.counting ex.streaming.readerOk
      ex.checkedAt = none)
    (hconsumed : (ex.streaming.pump.consumed : Int) = ex.streaming.counting.read) :
    Told route req ex.streaming := by
  obtain ⟨htimed, hexceeded, -, hlength⟩ := of_handleBodyError_none hbody
  have hacc := (hends.1.accounted rfl).1
  have hflag : ¬ex.streaming.Flagged := by simp [Streaming.Flagged, htimed, hexceeded]
  have hread : ex.streaming.counting.read = ex.streaming.taken.length := by
    rw [← hconsumed, hacc.consumed]
  constructor
  · exact hacc.taken_eq hflag hconsumed
  · intro hdeclared
    rw [← hread]
    exact hlength hdeclared
  · intro hpos
    rw [← hread]
    exact hacc.within hpos

/-- A success was either read from the member or tells the truth about a streamed body. -/
def Accounts (srv : ServerOptions) (routes : List Route) (x : Exchange)
    (answer : Response × LibraryRequest) (φ : MemberPhase) : Prop :=
  answer.1.succeeded = true → (∃ res, φ = .read res ∧ res.succeeded = true) ∨
    ∀ route params body, x.hasReader = true →
      matchRoute x.request.method x.request.path routes = some (route, params) →
      route.options.streamBody = true → x.Streams srv route body →
      Told route x.request x.streaming

theorem endStreamed_follows {params : List (String × String)}
    (hmatch : matchRoute ex.request.method ex.request.path routes = some (route, params))
    (hlength : req.contentLength = ex.request.contentLength) :
    (endStreamed srv ex req route).Follows (fun _ _ => True) memberProtocol
      (Accounts srv routes ex) .idle := by
  unfold endStreamed
  dsimp only
  cases hbody : handleBodyError srv req route ex.streaming.counting ex.streaming.readerOk
    ex.checkedAt with
  | some bodyError =>
    intro _ _
    refine ⟨.recorded, ⟨not_succeeded_bodyError hbody, rfl⟩, ?_⟩
    split
    · intro last _
      exact ⟨.read last, ⟨rfl, rfl⟩, fun hsucc => .inl ⟨last, rfl, succeeded_of_conclude hsucc⟩⟩
    · rename_i hkept
      intro hsucc
      exact absurd (succeeded_of_conclude hsucc) (by simp_all)
  | none =>
    dsimp only
    split
    · intro hsucc
      exact absurd (succeeded_of_conclude hsucc) (not_succeeded_error _ (by decide))
    · rename_i hconsumed
      intro hsucc
      refine .inr fun route' params' body hreader hmatch' hstream hends => ?_
      obtain ⟨rfl, rfl⟩ : route = route' ∧ params = params' := by simpa [hmatch] using hmatch'
      have hres := succeeded_of_conclude hsucc
      simp only [hres, Bool.true_and, bne_iff_ne, ne_eq, not_not] at hconsumed
      obtain ⟨hwhole, hdeclared, hwithin⟩ := told_of_end hends hbody hconsumed
      exact ⟨hwhole, hlength ▸ hdeclared, hwithin⟩

theorem endBuffered_follows {params : List (String × String)}
    (hmatch : matchRoute ex.request.method ex.request.path routes = some (route, params))
    (hstream : ¬route.options.streamBody = true) :
    (endBuffered srv ex req route).Follows (fun _ _ => True) memberProtocol
      (Accounts srv routes ex) .idle := by
  unfold endBuffered
  dsimp only
  split
  · rename_i bodyError hbody
    intro _ _
    refine ⟨.recorded, ⟨not_succeeded_bodyError hbody, rfl⟩, fun last _ => ?_⟩
    exact ⟨.read last, ⟨rfl, rfl⟩, fun hsucc => .inl ⟨last, rfl, hsucc⟩⟩
  · refine fun hsucc => .inr fun route' params' body _ hmatch' hstream' _ => ?_
    obtain ⟨rfl, rfl⟩ : route = route' ∧ params = params' := by simpa [hmatch] using hmatch'
    exact absurd hstream' hstream

theorem dispatch_follows (srv : ServerOptions) (routes : List Route) (x : Exchange) :
    (dispatch srv routes x).Follows (fun _ _ => True) memberProtocol (Accounts srv routes x)
      .idle := by
  cases hchecked : checkHead srv routes x.hasReader x.request with
  | error res =>
    rw [dispatch_refused hchecked]
    exact fun hsucc => absurd hsucc (not_succeeded_of_refused hchecked)
  | ok found =>
    obtain ⟨route, params⟩ := found
    have hmatch := matchRoute_of_admitted hchecked
    rw [dispatch_admitted hchecked, serve]
    split
    · rename_i hreader
      exact fun _ => .inr fun _ _ _ h => absurd (hreader.symm.trans h) (by decide)
    · split
      · exact endStreamed_follows hmatch rfl
      · rename_i hstream
        exact endBuffered_follows hmatch hstream

/-- Whatever else the server does at the same time, a streamed request that is answered with a
success has been handed to its handler in full: every octet received, as many as were declared,
and no more than the limit of its route. -/
theorem streamed_success_whole {ι : Type} [DecidableEq ι] (srv : ServerOptions)
    (routes : List Route) (x : ι → Exchange) {h : History members ι Response}
    {c : Serving ι} (hrun : memberMachine.Reaches (serving srv routes x) h c) (i : ι)
    {route : Route} {params : List (String × String)} {body : Bytes}
    {answer : Response × LibraryRequest} (hreader : (x i).hasReader = true)
    (hmatch : matchRoute (x i).request.method (x i).request.path routes = some (route, params))
    (hstream : route.options.streamBody = true) (hends : (x i).Streams srv route body)
    (hanswer : c.threads i = .ret answer) (hsucc : answer.1.succeeded = true) :
    (x i).streaming.taken = (x i).streaming.delivered ∧
      (0 ≤ (x i).request.contentLength →
        (x i).streaming.taken.length = (x i).request.contentLength) ∧
      (0 < route.options.maxBodyBytes →
        (x i).streaming.taken.length ≤ route.options.maxBodyBytes) := by
  have hstart : MemberInv (fun _ : ι => MemberPhase.idle) (serving srv routes x).state :=
    ⟨fun _ hne => absurd rfl hne, nofun⟩
  obtain ⟨φ, hfollows, hinv⟩ := Machine.Reaches.follows hrun
    (fun _ _ _ _ _ => trivial) memberInv_preserved (fun _ => trivial)
    (fun j => dispatch_follows srv routes (x j)) hstart trivial
  have hend := hfollows i
  rw [hanswer] at hend
  rcases hend hsucc with ⟨res, hread, hres⟩ | htold
  · exact absurd hres (hinv.read i res hread)
  · obtain ⟨hwhole, hdeclared, hwithin⟩ := htold route params body hreader hmatch hstream hends
    exact ⟨hwhole, hdeclared, hwithin⟩

/-! An upload of two octets, read by its handler in one piece. -/

def sampleRoute : Route := makeRoute .put "/object" { maxBodyBytes := 4, streamBody := true }

def sampleUpload : Exchange where
  hreq := { method := "PUT", target := "/object", path := "/object",
            headers := ⟨[("Content-Length", "2"), ("x-correlation-id", "c1")]⟩ }
  uuid := "u1"
  hasReader := true
  startedAt := 0
  arrivals := []
  readerOk := true
  streaming :=
    { counting := { limit := 4, read := 2, idleTimeoutMs := 120000, started := 0,
                    lastProgress := 5 }
      pump := { capacity := 262144, pushed := 2, consumed := 2, finished := true, stop := true }
      handled := some (.returns { status := 201 })
      delivered := [7, 8]
      taken := [7, 8] }
  handler := fun _ => .throws none
  checkedAt := 9

theorem sampleUpload_streams :
    sampleUpload.Streams {} sampleRoute [7, 8] := by
  refine ⟨?_, nofun, rfl, rfl, rfl⟩
  have arrived : Streaming.Reaches [7, 8]
      (Streaming.start (receiverFor {} sampleRoute 0) (pumpCapacity {})) _ :=
    .step .refl (.arrives [7, 8] 5 rfl rfl)
  have pushed := arrived.step (.pushes rfl rfl)
  have read := pushed.step (.reads 16 rfl rfl)
  have ended := (read.step (.readerReturns true rfl rfl fun _ => ⟨rfl, rfl⟩)).step
    (.handlerEnds (.returns { status := 201 }) rfl)
  exact ended.step (.stops nofun)

theorem sampleUpload_whole :
    sampleUpload.streaming.taken = sampleUpload.streaming.delivered ∧
      (0 ≤ sampleUpload.request.contentLength →
        sampleUpload.streaming.taken.length = sampleUpload.request.contentLength) ∧
      (0 < sampleRoute.options.maxBodyBytes →
        sampleUpload.streaming.taken.length ≤ sampleRoute.options.maxBodyBytes) := by
  have hmatch : matchRoute sampleUpload.request.method sampleUpload.request.path [sampleRoute] =
      some (sampleRoute, []) := by decide +kernel
  exact streamed_success_whole {} [sampleRoute] (fun _ : Unit => sampleUpload) .init () rfl
    hmatch rfl sampleUpload_streams rfl (by decide +kernel)

end Concurrent

end FileService.Http
