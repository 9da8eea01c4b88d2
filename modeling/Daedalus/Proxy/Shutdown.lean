import Daedalus.Foundation.Run
import Daedalus.Proxy.Handler

/-!
# Shutting the proxy down

`ShutdownManager.Shutdown` of `internal/proxy/shutdown.go` next to any number of `Handle` calls.
They share the handler: the flag and the wait group under its lock, the set of active sessions, and
the context tracker. Every call that `Handle` makes is a step, and so is everything that `Shutdown`
and its two waiting goroutines do, so every interleaving is a run. What the agent and NATS answer,
when the grace period and the exit timer run out and when the context of `Shutdown` is done is
open.

Of the tracker only the sessions it has entries for are kept.
-/
namespace Daedalus.Proxy

open Foundation A2A

/-- A `Handle` call: the calls it has made, and what is left of it. -/
structure Flight where
  past : Trace
  rest : Proc (Except GoError Unit)

/-- Where `Shutdown` is. -/
inductive Stage where
  | idle
  /-- The flag is set; in the `select` of phase 2. -/
  | waiting
  /-- The grace period is over; about to cancel the work context. -/
  | expired
  /-- About to take the snapshot of `CancelActiveSessions`. -/
  | released
  | cancelling (rest : List String)
  /-- In the `select` of phase 4. -/
  | waitingAgain
  | returned (err : Option GoError)
  deriving DecidableEq

structure Service where
  shuttingDown : Bool
  /-- The counter of the wait group. -/
  wg : ℕ
  sessions : Finset String
  /-- The sessions that the context tracker has entries for. -/
  tracked : Finset String
  flights : ℕ → Option Flight
  next : ℕ
  workCancelled : Bool
  stage : Stage
  /-- The channel `done` of phase 2 is closed, -/
  done : Bool
  /-- and the channel `cancelDone` of phase 4. -/
  cancelDone : Bool
  /-- The sessions for which `session/cancel` was sent. -/
  cancelled : List String

def Service.new : Service where
  shuttingDown := false
  wg := 0
  sessions := ∅
  tracked := ∅
  flights _ := none
  next := 0
  workCancelled := false
  stage := .idle
  done := false
  cancelDone := false
  cancelled := []

/-- What a call of `Handle` does to the handler, and when its answer is possible. -/
def Service.effect (s : Service) : Event Ans → Option Service
  | ⟨.enter, accepted⟩ =>
    if accepted = !s.shuttingDown then
      some (if accepted then { s with wg := s.wg + 1 } else s)
    else none
  | ⟨.done, _⟩ => some { s with wg := s.wg - 1 }
  | ⟨.registerSession sessionID, _⟩ => some { s with sessions := insert sessionID s.sessions }
  | ⟨.deregisterSession sessionID, _⟩ => some { s with sessions := s.sessions.erase sessionID }
  | ⟨.startSession sessionID _ _, _⟩ => some { s with tracked := insert sessionID s.tracked }
  | ⟨.endSession sessionID, _⟩ => some { s with tracked := s.tracked.erase sessionID }
  | _ => some s

theorem effect_enter {s t : Service} {accepted : Bool} : s.effect ⟨.enter, accepted⟩ = some t ↔
    accepted = !s.shuttingDown ∧ t = if accepted then { s with wg := s.wg + 1 } else s := by
  by_cases hflag : accepted = !s.shuttingDown
  · rw [Service.effect, if_pos hflag, Option.some.injEq, eq_comm]
    exact (and_iff_right hflag).symm
  · simp [Service.effect, hflag]

/-- What a call of `Handle` leaves alone. -/
theorem effect_frame {s t : Service} {e : Event Ans} (h : s.effect e = some t) :
    t.flights = s.flights ∧ t.next = s.next ∧ t.shuttingDown = s.shuttingDown ∧ t.stage = s.stage ∧
      t.done = s.done ∧ t.cancelDone = s.cancelDone ∧ t.cancelled = s.cancelled := by
  obtain ⟨op, ans⟩ := e
  cases op with
  | enter =>
    obtain ⟨-, rfl⟩ := effect_enter.mp h
    split_ifs <;> simp
  | _ =>
    cases h
    simp

inductive ServiceAct where
  /-- `Handle` is called on these data. -/
  | handle (data : Except GoError SendMessageRequest)
  /-- A call of a `Handle` in progress is answered. -/
  | call (c : ℕ) (e : Event Ans)
  /-- `Shutdown` is called and sets the flag. -/
  | shutdown
  /-- The goroutine of phase 2 sees the wait group at zero. -/
  | drain
  /-- `Shutdown` receives from `done`, or from `cancelDone`. -/
  | finish
  | expire
  | ctxDone (err : CtxErr)
  | workCancel
  /-- `activeSessions`, in the order in which the map is iterated. -/
  | snapshot (sessionIDs : List String)
  /-- The next `CancelSession` returns. -/
  | cancel
  /-- `CancelActiveSessions` returns. -/
  | await
  /-- The goroutine of phase 4 sees the wait group at zero. -/
  | drainAgain
  | exitTimer

def timedOut : GoError :=
  .new "proxy: shutdown timed out: in-flight handles did not complete after session cancellation"

def serviceStep (cfg : Config) (s : Service) : ServiceAct → Option Service
  | .handle data =>
    some { s with
      flights := Function.update s.flights s.next (some ⟨[], handle cfg data⟩), next := s.next + 1 }
  | .call c e =>
    (s.flights c).bind fun f =>
    (f.rest.advance e).bind fun rest =>
    (s.effect e).map fun t =>
      { t with flights := Function.update t.flights c (some ⟨f.past ++ [e], rest⟩) }
  | .shutdown =>
    if s.stage = .idle then some { s with shuttingDown := true, stage := .waiting } else none
  | .drain => if s.stage ≠ .idle ∧ s.wg = 0 then some { s with done := true } else none
  | .finish =>
    if s.stage = .waiting ∧ s.done then
      some { s with workCancelled := true, stage := .returned none }
    else if s.stage = .waitingAgain ∧ s.cancelDone then some { s with stage := .returned none }
    else none
  | .expire => if s.stage = .waiting then some { s with stage := .expired } else none
  | .ctxDone err =>
    if s.stage = .waiting then
      some { s with workCancelled := true, stage := .returned (some err.toError) }
    else if s.stage = .waitingAgain then some { s with stage := .returned (some err.toError) }
    else none
  | .workCancel =>
    if s.stage = .expired then some { s with workCancelled := true, stage := .released } else none
  | .snapshot sessionIDs =>
    if s.stage = .released ∧ sessionIDs.Nodup ∧ sessionIDs.toFinset = s.sessions then
      some { s with stage := .cancelling sessionIDs }
    else none
  | .cancel =>
    match s.stage with
    | .cancelling (sessionID :: rest) =>
      some { s with cancelled := s.cancelled ++ [sessionID], stage := .cancelling rest }
    | _ => none
  | .await => if s.stage = .cancelling [] then some { s with stage := .waitingAgain } else none
  | .drainAgain =>
    if s.stage = .waitingAgain ∧ s.wg = 0 then some { s with cancelDone := true } else none
  | .exitTimer =>
    if s.stage = .waitingAgain then some { s with stage := .returned (some timedOut) } else none

/-- What a step can do. -/
inductive ServiceMove (cfg : Config) (s : Service) : ServiceAct → Service → Prop
  | handle (data : Except GoError SendMessageRequest) :
    ServiceMove cfg s (.handle data) { s with
      flights := Function.update s.flights s.next (some ⟨[], handle cfg data⟩), next := s.next + 1 }
  | call {c : ℕ} {e : Event Ans} {f : Flight} {rest : Proc (Except GoError Unit)} {u : Service}
    (flight : s.flights c = some f) (advance : f.rest.advance e = some rest)
    (effect : s.effect e = some u) :
    ServiceMove cfg s (.call c e)
      { u with flights := Function.update u.flights c (some ⟨f.past ++ [e], rest⟩) }
  | shutdown (stage : s.stage = .idle) :
    ServiceMove cfg s .shutdown { s with shuttingDown := true, stage := .waiting }
  | drain (stage : s.stage ≠ .idle) (zero : s.wg = 0) :
    ServiceMove cfg s .drain { s with done := true }
  | finish (workCancelled : Bool)
    (stage : s.stage = .waiting ∧ s.done ∨ s.stage = .waitingAgain ∧ s.cancelDone) :
    ServiceMove cfg s .finish { s with workCancelled, stage := .returned none }
  | expire (stage : s.stage = .waiting) : ServiceMove cfg s .expire { s with stage := .expired }
  | ctxDone (err : CtxErr) (workCancelled : Bool)
    (stage : s.stage = .waiting ∨ s.stage = .waitingAgain) :
    ServiceMove cfg s (.ctxDone err) { s with workCancelled, stage := .returned (some err.toError) }
  | workCancel (stage : s.stage = .expired) :
    ServiceMove cfg s .workCancel { s with workCancelled := true, stage := .released }
  | snapshot {sessionIDs : List String} (stage : s.stage = .released)
    (all : sessionIDs.toFinset = s.sessions) :
    ServiceMove cfg s (.snapshot sessionIDs) { s with stage := .cancelling sessionIDs }
  | cancel {sessionID : String} {rest : List String}
    (stage : s.stage = .cancelling (sessionID :: rest)) :
    ServiceMove cfg s .cancel
      { s with cancelled := s.cancelled ++ [sessionID], stage := .cancelling rest }
  | await (stage : s.stage = .cancelling []) :
    ServiceMove cfg s .await { s with stage := .waitingAgain }
  | drainAgain (stage : s.stage = .waitingAgain) (zero : s.wg = 0) :
    ServiceMove cfg s .drainAgain { s with cancelDone := true }
  | exitTimer (stage : s.stage = .waitingAgain) :
    ServiceMove cfg s .exitTimer { s with stage := .returned (some timedOut) }

theorem serviceStep_move {cfg : Config} {s t : Service} {a : ServiceAct}
    (h : serviceStep cfg s a = some t) : ServiceMove cfg s a t := by
  cases a with
  | handle data =>
    cases h
    exact .handle data
  | call c e =>
    simp only [serviceStep, Option.bind_eq_some_iff, Option.map_eq_some_iff] at h
    obtain ⟨f, hf, rest, hrest, u, hu, rfl⟩ := h
    exact .call hf hrest hu
  | cancel =>
    simp only [serviceStep] at h
    split at h
    · cases h
      exact .cancel ‹_›
    · cases h
  | finish =>
    simp only [serviceStep] at h
    split_ifs at h with hstage hstage
    · cases h
      exact .finish true (.inl hstage)
    · cases h
      exact .finish s.workCancelled (.inr hstage)
  | ctxDone err =>
    simp only [serviceStep] at h
    split_ifs at h with hstage hstage
    · cases h
      exact .ctxDone err true (.inl hstage)
    · cases h
      exact .ctxDone err s.workCancelled (.inr hstage)
  | shutdown | drain | expire | workCancel | snapshot | await | drainAgain | exitTimer =>
    simp only [serviceStep] at h
    split_ifs at h with hstage
    cases h
    first
    | exact .shutdown hstage
    | exact .drain hstage.1 hstage.2
    | exact .expire hstage
    | exact .workCancel hstage
    | exact .snapshot hstage.1 hstage.2.2
    | exact .await hstage
    | exact .drainAgain hstage.1 hstage.2
    | exact .exitTimer hstage

end Daedalus.Proxy
