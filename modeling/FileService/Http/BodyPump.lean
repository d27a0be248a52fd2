import FileService.Http.Message

/-!
# The body of a streamed request

A pump thread reads the body from the library and pushes it into a bounded
buffer, while the handler reads from the buffer. A run interleaves the steps of
the two threads. Besides the members of the source the state records which
octets the library has delivered, which ones the handler has been given, and
whether a callback has been refused.
-/
namespace FileService.Http
open FileService.Common FileService.Domain

/-! ## Counting what is received -/

structure CountingReceiver where
  buffer : Option Bytes := none
  limit : Int := 0
  read : Int := 0
  exceeded : Bool := false
  overallTimeoutMs : Int := 0
  idleTimeoutMs : Int := 0
  started : Int
  lastProgress : Int
  timedOut : Bool := false
deriving DecidableEq, Repr

/-- Only octets that have arrived are progress. -/
def CountingReceiver.progressed (c : CountingReceiver) (data : Bytes) (now : Int) :
    CountingReceiver :=
  if data = [] then c else { c with lastProgress := now }

/-- `operator()`: whether the library shall go on after `data` has arrived at the time `now`. -/
def CountingReceiver.receive (c : CountingReceiver) (data : Bytes) (now : Int) :
    CountingReceiver × Bool :=
  if 0 < c.overallTimeoutMs ∧ c.overallTimeoutMs < now - c.started then
    ({ c with timedOut := true }, false)
  else if 0 < c.idleTimeoutMs ∧ c.idleTimeoutMs < now - c.lastProgress then
    ({ c with timedOut := true }, false)
  else
    let c' := c.progressed data now
    if 0 < c.limit ∧ c.limit < c.read + data.length then ({ c' with exceeded := true }, false)
    else ({ c' with read := c.read + data.length, buffer := c.buffer.map (· ++ data) }, true)

section Progressed
variable (c : CountingReceiver) (data : Bytes) (now : Int)

@[simp] theorem progressed_limit : (c.progressed data now).limit = c.limit := by
  unfold CountingReceiver.progressed
  split <;> rfl

@[simp] theorem progressed_timedOut : (c.progressed data now).timedOut = c.timedOut := by
  unfold CountingReceiver.progressed
  split <;> rfl

@[simp] theorem progressed_exceeded : (c.progressed data now).exceeded = c.exceeded := by
  unfold CountingReceiver.progressed
  split <;> rfl

@[simp] theorem progressed_read : (c.progressed data now).read = c.read := by
  unfold CountingReceiver.progressed
  split <;> rfl

/-- A callback that is refused is flagged; one that is not has been counted in full. -/
theorem receive_cases :
    ((c.receive data now).2 = false ∧ (c.receive data now).1.limit = c.limit ∧
      (c.receive data now).1.read = c.read ∧
      ((c.receive data now).1.timedOut = true ∨ (c.receive data now).1.exceeded = true)) ∨
    ((c.receive data now).2 = true ∧ (c.receive data now).1.limit = c.limit ∧
      (c.receive data now).1.read = c.read + data.length ∧
      (c.receive data now).1.timedOut = c.timedOut ∧
      (c.receive data now).1.exceeded = c.exceeded ∧
      (0 < c.limit → c.read + data.length ≤ c.limit)) := by
  unfold CountingReceiver.receive
  split
  · simp
  · split
    · simp
    · by_cases hover : 0 < c.limit ∧ c.limit < c.read + data.length
      · simp [hover]
      · simp only [if_neg hover]
        simp only [not_and, not_lt] at hover
        simpa using hover

end Progressed

/-! ## The pump -/

structure BodyPump where
  capacity : Nat
  buf : Bytes := []
  buffered : Nat := 0
  pushed : Nat := 0
  consumed : Nat := 0
  finished : Bool := false
  pumpOk : Bool := true
  stop : Bool := false
deriving DecidableEq, Repr

namespace BodyPump

/-- `Push`, once it need not wait any longer. -/
def push (p : BodyPump) (data : Bytes) : Option (BodyPump × Bool) :=
  if p.stop = true then some (p, false)
  else if p.buffered < p.capacity then
    some ({ p with buf := p.buf ++ data, buffered := p.buffered + data.length,
                   pushed := p.pushed + data.length }, true)
  else none

/-- `Read`, once it need not wait any longer. -/
def read (p : BodyPump) (capacity : Nat) : Option (BodyPump × Result Bytes) :=
  if p.buf ≠ [] then
    let taken := p.buf.take capacity
    some ({ p with buf := p.buf.drop capacity, buffered := p.buffered - taken.length,
                   consumed := p.consumed + taken.length }, .ok taken)
  else if p.finished = false then
    if p.stop = true then some (p, .ok []) else none
  else if p.pumpOk = false ∧ p.stop = false then
    some (p, .error (err .invalidArgument "请求体读取失败或被中止"))
  else some (p, .ok [])

theorem read_finished {p p' : BodyPump} {capacity : Nat} {r : Result Bytes}
    (h : p.read capacity = some (p', r)) : p'.finished = p.finished := by
  unfold read at h
  repeat' split at h
  all_goals cases h <;> rfl

/-- The pump thread has come to its end. -/
def finish (p : BodyPump) (ok : Bool) : BodyPump := { p with finished := true, pumpOk := ok }

def signalStop (p : BodyPump) : BodyPump := { p with stop := true }

end BodyPump

/-! ## The two threads -/

/-- How a handler ends; `throws` carries `what()`, if the exception has one. -/
inductive Outcome where
  | returns (res : Response)
  | throws (what : Option String)

structure Streaming where
  counting : CountingReceiver
  pump : BodyPump
  readerOk : Bool := true
  pushing : Option Bytes := none
  handled : Option Outcome := none
  delivered : Bytes := []
  taken : Bytes := []
  refused : Bool := false

namespace Streaming

/-- One step of a thread, for a message whose body is `body`. The library reports success
only when it has delivered the whole body and no callback was refused. -/
inductive Step (body : Bytes) : Streaming → Streaming → Prop
  /-- The library calls back with `data`. -/
  | arrives {s : Streaming} (data : Bytes) (now : Int) :
      s.pushing = none → s.pump.finished = false →
      Step body s
        { s with
          counting := (s.counting.receive data now).1
          pushing := if (s.counting.receive data now).2 = true then some data else none
          delivered := s.delivered ++ data
          refused := s.refused || !(s.counting.receive data now).2 }
  /-- The callback passes `data` on. -/
  | pushes {s : Streaming} {data : Bytes} {p : BodyPump} {ok : Bool} :
      s.pushing = some data → s.pump.push data = some (p, ok) →
      Step body s { s with pump := p, pushing := none, refused := s.refused || !ok }
  | readerReturns {s : Streaming} (ok : Bool) :
      s.pushing = none → s.pump.finished = false →
      (ok = true → s.refused = false ∧ s.delivered = body) →
      Step body s { s with readerOk := ok, pump := s.pump.finish ok }
  /-- An exception leaves the flag of the reader as it was. -/
  | readerThrows {s : Streaming} :
      s.pump.finished = false →
      Step body s { s with pump := s.pump.finish false, pushing := none }
  | reads {s : Streaming} (capacity : Nat) {p : BodyPump} {bytes : Bytes} :
      s.handled = none → s.pump.read capacity = some (p, .ok bytes) →
      Step body s { s with pump := p, taken := s.taken ++ bytes }
  | readFails {s : Streaming} (capacity : Nat) {p : BodyPump} {e : Error} :
      s.handled = none → s.pump.read capacity = some (p, .error e) →
      Step body s { s with pump := p }
  | handlerEnds {s : Streaming} (outcome : Outcome) :
      s.handled = none → Step body s { s with handled := some outcome }
  | stops {s : Streaming} :
      s.handled ≠ none → Step body s { s with pump := s.pump.signalStop }

inductive Reaches (body : Bytes) (s₀ : Streaming) : Streaming → Prop
  | refl : Reaches body s₀ s₀
  | step {s s' : Streaming} : Reaches body s₀ s → Step body s s' → Reaches body s₀ s'

/-- Both threads have been joined. -/
def Ended (s : Streaming) : Prop :=
  s.handled ≠ none ∧ s.pump.stop = true ∧ s.pump.finished = true ∧ s.pushing = none

def start (counting : CountingReceiver) (capacity : Nat) : Streaming :=
  { counting, pump := { capacity } }

end Streaming
end FileService.Http
