import Daedalus.Proxy.Cancellation
import Daedalus.Queue.Consumer

/-!
# The proxy process

`main` of `cmd/proxy/main.go` around the handler. One goroutine runs `Consumer.Run`, which fetches
one message at a time, hands it to `Handle` under the work context and settles it. The main
goroutine waits for the signal, calls `Shutdown` with a context that is never done, and then waits
for the consumer. The set-up before (connecting, initializing ACP) and the clean-up after are left
out.

There is only one caller of `Handle`, so two sessions never exist at the same time, and what
`Shutdown` guarantees needs no assumption about the IDs that the agent gives out.
-/
namespace Daedalus.Proxy

open Foundation A2A Queue Prog

/-- A message as `Fetch` hands it over: what its data decodes to, and its number of deliveries. -/
structure Fetched where
  data : Except GoError SendMessageRequest
  numDelivered : ℕ

/-- Where the goroutine of the consumer is. -/
inductive RunLoop where
  /-- At the `select` at the head of the loop. -/
  | head
  | fetching
  /-- A message is received and about to be handled. -/
  | holding (m : Fetched)
  /-- In the `Handle` call `c`. -/
  | handling (m : Fetched) (c : ℕ)
  /-- The batch is over; about to look at its error. -/
  | ending
  | returned

/-- The message that the loop has received and not settled. -/
def RunLoop.message : RunLoop → Option Fetched
  | .holding m | .handling m _ => some m
  | _ => none

/-- How many calls of `Handle` the loop is in. -/
def RunLoop.calls : RunLoop → ℕ
  | .handling _ _ => 1
  | _ => 0

/-- How many messages the loop may still get without polling again. -/
def RunLoop.fetches : RunLoop → ℕ
  | .fetching => 1
  | _ => 0

/-- Where the main goroutine is: waiting for the signal, in `Shutdown`, waiting for the consumer, or
past it. -/
inductive MainLoop where
  | serving
  | stopping
  | draining
  | returned
  deriving DecidableEq

structure Process where
  service : Service
  /-- The context of the consumer is done. -/
  signalled : Bool
  loop : RunLoop
  main : MainLoop
  /-- The messages that were acknowledged, given back or terminated. -/
  settled : List (Fetched × Disposition)

namespace Process

def new : Process where
  service := .new
  signalled := false
  loop := .head
  main := .serving
  settled := []

inductive Act where
  | signal
  | poll
  | fetch (m : Fetched)
  /-- The batch is empty. -/
  | fetchNothing
  | fetchFails
  | handle
  /-- A call of the `Handle` in progress is answered. -/
  | work (e : Event Ans)
  | settle
  /-- The batch ends, with an error or without. -/
  | endBatch (err : Bool)
  | shutdown
  /-- A step inside `Shutdown` or of one of its goroutines. -/
  | service (a : ServiceAct)
  | shutdownReturns
  | exit

/-- The steps of `Shutdown` after it has set the flag. Its context is `context.Background()`. -/
def ofShutdown : ServiceAct → Bool
  | .handle _ | .call _ _ | .shutdown | .ctxDone _ => false
  | _ => true

def step (cfg : Config) (p : Process) : Act → Option Process
  | .signal => if p.signalled then none else some { p with signalled := true }
  | .poll =>
    match p.loop with
    | .head => some { p with loop := if p.signalled then .returned else .fetching }
    | _ => none
  | .fetch m =>
    match p.loop with
    | .fetching => some { p with loop := .holding m }
    | _ => none
  | .fetchNothing =>
    match p.loop with
    | .fetching => some { p with loop := .ending }
    | _ => none
  | .fetchFails =>
    match p.loop with
    | .fetching => some { p with loop := if p.signalled then .returned else .head }
    | _ => none
  | .handle =>
    match p.loop with
    | .holding m => (serviceStep cfg p.service (.handle m.data)).map fun service =>
      { p with service, loop := .handling m p.service.next }
    | _ => none
  | .work e =>
    match p.loop with
    | .handling _ c => (serviceStep cfg p.service (.call c e)).map fun service => { p with service }
    | _ => none
  | .settle =>
    match p.loop with
    | .handling m c => (p.service.flights c).bind fun f => f.rest.result.map fun result =>
      { p with
        loop := .ending
        settled := p.settled ++ [(m, processMessage m.numDelivered result)] }
    | _ => none
  | .endBatch err =>
    match p.loop with
    | .ending => some { p with loop := if err && p.signalled then .returned else .head }
    | _ => none
  | .shutdown =>
    if p.main = .serving ∧ p.signalled then
      (serviceStep cfg p.service .shutdown).map fun service =>
        { p with service, main := .stopping }
    else none
  | .service a =>
    if ofShutdown a then
      (serviceStep cfg p.service a).map fun service => { p with service }
    else none
  | .shutdownReturns =>
    match p.main, p.service.stage with
    | .stopping, .returned _ => some { p with main := .draining }
    | _, _ => none
  | .exit =>
    match p.main, p.loop with
    | .draining, .returned => some { p with main := .returned }
    | _, _ => none

/-- The messages fetched, each with whether the signal had come. -/
def fetched (p : Process) : Act → List (Bool × Fetched)
  | .fetch m => [(p.signalled, m)]
  | _ => []

/-! ## What a step can do -/

/-- The moves of the process, by what they change. -/
inductive Move (cfg : Config) (p : Process) : Act → Process → Prop
  | signal (first : p.signalled = false) : Move cfg p .signal { p with signalled := true }
  | pass {a : Act} {loop : RunLoop} (idle : p.loop = .head ∨ p.loop = .fetching ∨ p.loop = .ending)
    (later : loop = .head ∨ loop = .ending ∨ loop = .returned ∨
      loop = .fetching ∧ p.signalled = false)
    (other : ∀ m, a ≠ .fetch m) : Move cfg p a { p with loop }
  | fetch (m : Fetched) (here : p.loop = .fetching) :
    Move cfg p (.fetch m) { p with loop := .holding m }
  | handle {m : Fetched} {service : Service} (here : p.loop = .holding m)
    (hs : serviceStep cfg p.service (.handle m.data) = some service) :
    Move cfg p .handle { p with service, loop := .handling m p.service.next }
  | work {m : Fetched} {c : ℕ} {e : Event Ans} {service : Service} (here : p.loop = .handling m c)
    (hs : serviceStep cfg p.service (.call c e) = some service) :
    Move cfg p (.work e) { p with service }
  | settle {m : Fetched} {c : ℕ} {f : Flight} {result : Except GoError Unit}
    (here : p.loop = .handling m c) (flight : p.service.flights c = some f)
    (returned : f.rest.result = some result) :
    Move cfg p .settle { p with
      loop := .ending, settled := p.settled ++ [(m, processMessage m.numDelivered result)] }
  | shutdown {service : Service} (here : p.main = .serving) (signalled : p.signalled)
    (hs : serviceStep cfg p.service .shutdown = some service) :
    Move cfg p .shutdown { p with service, main := .stopping }
  | service {a : ServiceAct} {service : Service} (own : ofShutdown a)
    (hs : serviceStep cfg p.service a = some service) : Move cfg p (.service a) { p with service }
  | shutdownReturns {err : Option GoError} (here : p.main = .stopping)
    (stage : p.service.stage = .returned err) :
    Move cfg p .shutdownReturns { p with main := .draining }
  | exit (here : p.main = .draining) (loop : p.loop = .returned) :
    Move cfg p .exit { p with main := .returned }

variable {cfg : Config} {p q : Process}

theorem step_move {a : Act} (h : step cfg p a = some q) : Move cfg p a q := by
  cases a with
  | signal =>
    simp only [step] at h
    split_ifs at h with first
    cases h
    exact .signal (by simpa using first)
  | poll =>
    simp only [step] at h
    split at h
    · rename_i here
      cases h
      refine .pass (.inl here) ?_ (by simp)
      by_cases hs : p.signalled <;> simp [hs]
    · cases h
  | fetch m =>
    simp only [step] at h
    split at h
    · cases h
      exact .fetch m ‹_›
    · cases h
  | fetchNothing =>
    simp only [step] at h
    split at h
    · rename_i here
      cases h
      exact .pass (.inr (.inl here)) (by simp) (by simp)
    · cases h
  | fetchFails =>
    simp only [step] at h
    split at h
    · rename_i here
      cases h
      refine .pass (.inr (.inl here)) ?_ (by simp)
      by_cases hs : p.signalled <;> simp [hs]
    · cases h
  | handle =>
    simp only [step] at h
    split at h
    · obtain ⟨service, hs, rfl⟩ := Option.map_eq_some_iff.mp h
      exact .handle ‹_› hs
    · cases h
  | work e =>
    simp only [step] at h
    split at h
    · obtain ⟨service, hs, rfl⟩ := Option.map_eq_some_iff.mp h
      exact .work ‹_› hs
    · cases h
  | settle =>
    simp only [step] at h
    split at h
    · simp only [Option.bind_eq_some_iff, Option.map_eq_some_iff] at h
      obtain ⟨f, hf, result, hresult, rfl⟩ := h
      exact .settle ‹_› hf hresult
    · cases h
  | endBatch err =>
    simp only [step] at h
    split at h
    · rename_i here
      cases h
      refine .pass (.inr (.inr here)) ?_ (by simp)
      by_cases hs : (err && p.signalled) = true <;> simp [hs]
    · cases h
  | shutdown =>
    simp only [step] at h
    split_ifs at h with here
    obtain ⟨service, hs, rfl⟩ := Option.map_eq_some_iff.mp h
    exact .shutdown here.1 here.2 hs
  | service b =>
    simp only [step] at h
    split_ifs at h with own
    obtain ⟨service, hs, rfl⟩ := Option.map_eq_some_iff.mp h
    exact .service own hs
  | shutdownReturns =>
    simp only [step] at h
    split at h
    · cases h
      exact .shutdownReturns ‹_› ‹_›
    · cases h
  | exit =>
    simp only [step] at h
    split at h
    · cases h
      exact .exit ‹_› ‹_›
    · cases h

/-! ## The invariant -/

theorem shutdown_frame {s t : Service} {a : ServiceAct} (own : ofShutdown a ∨ a = .shutdown)
    (h : serviceStep cfg s a = some t) : t.flights = s.flights ∧ t.next = s.next := by
  cases serviceStep_move h with
  | handle | call => rcases own with own | own <;> cases own
  | _ => exact ⟨rfl, rfl⟩

/-- With one call at a time the agent may give out the IDs it likes. -/
theorem distinct_of_single {s : Service} {phase : ℕ → Phase} {c : ℕ} {f : Flight} {e : Event Ans}
    {rest : Proc (Except GoError Unit)} (h : Orderly s phase)
    (single : ∀ d g, s.flights d = some g → g.rest.result = none → d = c)
    (hc : s.flights c = some f) (hrest : f.rest.advance e = some rest) :
    Distinct s (.call c e) := by
  intro id hid d _ g hg hresult
  obtain rfl := single d g hg hresult
  obtain rfl := Option.some.inj (hc.symm.trans hg)
  obtain ⟨φ, hmove, -⟩ := (h.follows d f hc).advance hrest
  have records := h.records d f hc
  generalize phase d = φ₀ at hmove records
  cases hmove with
  | create id' => simp [records.uncreated (.inr rfl)]
  | pass busy quiet => simp [sessionCreated_inert quiet] at hid
  | _ => cases hid

/-- The call `c` was the one for the message, it has returned, and the message was settled by what
it returned. -/
def SettledBy (cfg : Config) (s : Service) (c : ℕ) (entry : Fetched × Disposition) : Prop :=
  ∃ f result, s.flights c = some f ∧ f.rest.result = some result ∧
    (handle cfg entry.1.data).replay f.past = some result ∧
    entry.2 = processMessage entry.1.numDelivered result

structure Inv (cfg : Config) (seen : List (Bool × Fetched)) (p : Process) : Prop where
  orderly : ∃ phase, Orderly p.service phase
  closing : Closing p.service
  /-- A call that has not returned is the one the loop is in. -/
  single : ∀ c f, p.service.flights c = some f → f.rest.result = none → ∃ m, p.loop = .handling m c
  /-- This call runs `Handle` on the message. -/
  handled : ∀ m c, p.loop = .handling m c → ∃ f, p.service.flights c = some f ∧
    ∀ es r, f.rest.replay es = some r → (handle cfg m.data).replay (f.past ++ es) = some r
  settled : seen.map (·.2) = p.settled.map (·.1) ++ p.loop.message.toList
  /-- The calls are numbered as the messages are. -/
  numbered : p.service.next = p.settled.length + p.loop.calls
  current : ∀ m c, p.loop = .handling m c → c = p.settled.length
  justified : ∀ i entry, p.settled[i]? = some entry → SettledBy cfg p.service i entry
  early : p.signalled = false → seen.filter (·.1) = []
  late : (seen.filter (·.1)).length + (if p.signalled then p.loop.fetches else 0) ≤ 1
  serving : p.main = .serving ↔ p.service.stage = .idle
  stopped : p.main = .draining ∨ p.main = .returned → ∃ err, p.service.stage = .returned err
  exited : p.main = .returned → p.loop = .returned

theorem Inv.new : Inv cfg [] .new where
  orderly := ⟨_, .new⟩
  closing := .new
  single := by simp [Process.new, Service.new]
  handled := by simp [Process.new]
  settled := by simp [Process.new, RunLoop.message]
  numbered := rfl
  current := by simp [Process.new]
  justified := by simp [Process.new]
  early := by simp
  late := by simp [Process.new]
  serving := by simp [Process.new, Service.new]
  stopped := by simp [Process.new]
  exited := by simp [Process.new]

variable {seen : List (Bool × Fetched)}

/-- A step of `Shutdown` leaves the calls alone. -/
theorem Inv.service (h : Inv cfg seen p) {a : ServiceAct} {service : Service}
    (own : ofShutdown a ∨ a = .shutdown) (hs : serviceStep cfg p.service a = some service)
    {main : MainLoop} (serving : main = .serving ↔ service.stage = .idle)
    (later : main = p.main ∨ main = .stopping) : Inv cfg seen { p with service, main } := by
  obtain ⟨phase, orderly⟩ := h.orderly
  obtain ⟨flights, next⟩ := shutdown_frame own hs
  have distinct : Distinct p.service a := by
    cases a with
    | call => rcases own with own | own <;> cases own
    | _ => trivial
  obtain ⟨phase', orderly', -⟩ := orderly.step distinct hs
  refine ⟨⟨phase', orderly'⟩, h.closing.step hs, ?_, ?_, h.settled, next.trans h.numbered,
    h.current, ?_, h.early, h.late, serving, ?_, ?_⟩
  · intro c f hf hresult
    exact h.single c f (flights ▸ hf) hresult
  · intro m c hloop
    rw [flights]
    exact h.handled m c hloop
  · intro i entry hi
    unfold SettledBy
    rw [flights]
    exact h.justified i entry hi
  · rcases later with rfl | rfl
    · intro stopped
      obtain ⟨err, herr⟩ := h.stopped stopped
      exact ⟨err, returned_step herr hs⟩
    · simp
  · rcases later with rfl | rfl
    · exact h.exited
    · simp

/-- The loop moves on without a call. -/
theorem Inv.pass (h : Inv cfg seen p) {loop : RunLoop}
    (idle : p.loop = .head ∨ p.loop = .fetching ∨ p.loop = .ending)
    (later : loop = .head ∨ loop = .ending ∨ loop = .returned ∨
      loop = .fetching ∧ p.signalled = false) : Inv cfg seen { p with loop } := by
  have before : p.loop.message = none ∧ (∀ m c, p.loop ≠ .handling m c) ∧ p.loop ≠ .returned := by
    rcases idle with e | e | e <;> simp [e, RunLoop.message]
  have after : loop.message = none ∧ ∀ m c, loop ≠ .handling m c := by
    rcases later with rfl | rfl | rfl | ⟨rfl, -⟩ <;> simp [RunLoop.message]
  have calls : loop.calls = p.loop.calls := by
    rcases idle with e | e | e <;> rcases later with rfl | rfl | rfl | ⟨rfl, -⟩ <;>
      simp [e, RunLoop.calls]
  have fewer : (if p.signalled then loop.fetches else 0) = 0 := by
    rcases later with rfl | rfl | rfl | ⟨rfl, e⟩ <;> simp [RunLoop.fetches, *]
  refine ⟨h.orderly, h.closing, ?_, ?_, ?_, ?_, ?_, h.justified, h.early, ?_, h.serving,
    h.stopped, ?_⟩
  · intro c f hf hresult
    obtain ⟨m, hm⟩ := h.single c f hf hresult
    exact absurd hm (before.2.1 m c)
  · intro m c hloop
    exact absurd hloop (after.2 m c)
  · have settled := h.settled
    rw [before.1] at settled
    rw [settled, after.1]
  · rw [h.numbered, calls]
  · intro m c hloop
    exact absurd hloop (after.2 m c)
  · have late := h.late
    dsimp only
    omega
  · intro hmain
    exact absurd (h.exited hmain) before.2.2

theorem Inv.fetch (h : Inv cfg seen p) (m : Fetched) (here : p.loop = .fetching) :
    Inv cfg (seen ++ [(p.signalled, m)]) { p with loop := .holding m } := by
  refine ⟨h.orderly, h.closing, ?_, by simp, ?_, ?_, by simp, h.justified, ?_, ?_, h.serving,
    h.stopped, ?_⟩
  · intro c f hf hresult
    obtain ⟨m', hm'⟩ := h.single c f hf hresult
    simp [here] at hm'
  · simpa [here, RunLoop.message] using h.settled
  · simpa [here, RunLoop.calls] using h.numbered
  · intro hs
    have hs : p.signalled = false := hs
    simpa [hs] using h.early hs
  · have late := h.late
    have early := h.early
    rw [here] at late
    cases hs : p.signalled with
    | true => simpa [hs, RunLoop.fetches] using late
    | false => simp [early hs]
  · intro hmain
    simp [h.exited hmain] at here

theorem Inv.handle (h : Inv cfg seen p) {m : Fetched} {service : Service}
    (here : p.loop = .holding m) (hs : serviceStep cfg p.service (.handle m.data) = some service) :
    Inv cfg seen { p with service, loop := .handling m p.service.next } := by
  obtain ⟨phase, orderly⟩ := h.orderly
  have closing := h.closing.step hs
  have distinct : Distinct p.service (.handle m.data) := trivial
  obtain ⟨phase', orderly', -⟩ := orderly.step distinct hs
  cases hs
  have number : p.service.next = p.settled.length := by
    simpa [here, RunLoop.calls] using h.numbered
  refine ⟨⟨phase', orderly'⟩, closing, ?_, ?_, ?_, ?_, ?_, ?_, h.early, ?_, h.serving, h.stopped,
    ?_⟩
  · intro c f hf hresult
    by_cases hc : c = p.service.next
    · exact ⟨m, by rw [hc]⟩
    · obtain ⟨m', hm'⟩ := h.single c f (by simpa [hc] using hf) hresult
      simp [here] at hm'
  · rintro m' c ⟨⟩
    exact ⟨⟨[], Proxy.handle cfg m.data⟩, by simp, fun es r hr => hr⟩
  · simpa [here, RunLoop.message] using h.settled
  · simp [RunLoop.calls, number]
  · rintro m' c ⟨⟩
    exact number
  · intro i entry hi
    have earlier : i ≠ p.service.next :=
      number ▸ (List.getElem?_eq_some_iff.mp hi).1.ne
    simpa [SettledBy, earlier] using h.justified i entry hi
  · have late := h.late
    simp only [RunLoop.fetches, ite_self]
    omega
  · intro hmain
    simp [h.exited hmain] at here

theorem Inv.work (h : Inv cfg seen p) {m : Fetched} {c : ℕ} {e : Event Ans} {service : Service}
    (here : p.loop = .handling m c) (hs : serviceStep cfg p.service (.call c e) = some service) :
    Inv cfg seen { p with service } := by
  obtain ⟨phase, orderly⟩ := h.orderly
  have closing := h.closing.step hs
  have single : ∀ d g, p.service.flights d = some g → g.rest.result = none → d = c := by
    intro d g hg hresult
    obtain ⟨m', hm'⟩ := h.single d g hg hresult
    rw [here] at hm'
    cases hm'
    rfl
  obtain ⟨f, hf, replays⟩ := h.handled m c here
  cases serviceStep_move hs with
  | @call _ _ f' rest u hf' hrest heffect =>
    obtain rfl := Option.some.inj (hf.symm.trans hf')
    have distinct := distinct_of_single orderly single hf hrest
    obtain ⟨phase', orderly', -⟩ := orderly.step distinct hs
    obtain ⟨hflights, hnext, -, hstage, -⟩ := effect_frame heffect
    refine ⟨⟨phase', orderly'⟩, closing, ?_, ?_, h.settled, hnext.trans h.numbered, h.current, ?_,
      h.early, h.late, ?_, ?_, h.exited⟩
    · intro d g hg hresult
      by_cases hd : d = c
      · exact ⟨m, by rw [hd, here]⟩
      · exact h.single d g (by simpa [hd, hflights] using hg) hresult
    · intro m' c' hloop
      rw [here] at hloop
      cases hloop
      refine ⟨⟨f.past ++ [e], rest⟩, by simp, fun es r hr => ?_⟩
      rw [List.append_assoc]
      exact replays (e :: es) r ((replay_of_advance hrest).trans hr)
    · intro i entry hi
      have earlier : i ≠ c := h.current m c here ▸ (List.getElem?_eq_some_iff.mp hi).1.ne
      simpa [SettledBy, earlier, hflights] using h.justified i entry hi
    · rw [h.serving]
      simp [hstage]
    · simpa [hstage] using h.stopped

theorem Inv.settle (h : Inv cfg seen p) {m : Fetched} {c : ℕ} {f : Flight}
    {result : Except GoError Unit} (here : p.loop = .handling m c)
    (flight : p.service.flights c = some f) (returned : f.rest.result = some result) :
    Inv cfg seen { p with
      loop := .ending, settled := p.settled ++ [(m, processMessage m.numDelivered result)] } := by
  obtain ⟨f', hf', replays⟩ := h.handled m c here
  obtain rfl := Option.some.inj (flight.symm.trans hf')
  have number := h.current m c here
  refine ⟨h.orderly, h.closing, ?_, by simp, ?_, ?_, by simp, ?_, h.early, ?_, h.serving,
    h.stopped, ?_⟩
  · intro d g hg hresult
    obtain ⟨m', hm'⟩ := h.single d g hg hresult
    rw [here] at hm'
    cases hm'
    obtain rfl := Option.some.inj (flight.symm.trans hg)
    simp [returned] at hresult
  · simpa [here, RunLoop.message] using h.settled
  · simpa [here, RunLoop.calls] using h.numbered
  · intro i entry hi
    rcases getElem?_snoc.mp hi with hold | ⟨rfl, rfl⟩
    · exact h.justified i entry hold
    · have done : f.rest.replay [] = some result := by
        rw [result_eq_some.mp returned]
        simp
      exact ⟨f, result, number ▸ flight, returned, by simpa using replays [] result done, rfl⟩
  · have late := h.late
    simp only [RunLoop.fetches, ite_self]
    omega
  · intro hmain
    simp [h.exited hmain] at here

theorem Inv.step {a : Act} (h : Inv cfg seen p) (hs : Process.step cfg p a = some q) :
    Inv cfg (seen ++ fetched p a) q := by
  cases step_move hs with
  | signal first =>
    have none := h.early first
    have late : (if (true : Bool) then p.loop.fetches else 0) ≤ 1 := by
      cases p.loop <;> simp [RunLoop.fetches]
    simp only [fetched, List.append_nil]
    exact ⟨h.orderly, h.closing, h.single, h.handled, h.settled, h.numbered, h.current,
      h.justified, by simp, by simpa [none] using late, h.serving, h.stopped, h.exited⟩
  | pass idle later other =>
    have : fetched p a = [] := by
      cases a with
      | fetch m => exact absurd rfl (other m)
      | _ => rfl
    simpa [this] using h.pass idle later
  | fetch m here => exact h.fetch m here
  | handle here hstep => simpa [fetched] using h.handle here hstep
  | work here hstep => simpa [fetched] using h.work here hstep
  | settle here flight returned => simpa [fetched] using h.settle here flight returned
  | shutdown here signalled hstep =>
    have stage : ∀ service, serviceStep cfg p.service .shutdown = some service →
        service.stage = .waiting := by
      intro service hservice
      cases serviceStep_move hservice
      rfl
    simpa [fetched] using h.service (.inr rfl) hstep (by simp [stage _ hstep]) (.inr rfl)
  | @service b service own hstep =>
    have serving : p.main = .serving ↔ service.stage = .idle := by
      rw [h.serving]
      cases serviceStep_move hstep with
      | handle | call | shutdown | ctxDone => cases own
      | drain stage | drainAgain stage => exact Iff.rfl
      | finish _ stage => rcases stage with stage | stage <;> simp [stage.1]
      | expire stage | workCancel stage | snapshot stage | cancel stage | await stage
      | exitTimer stage => simp [stage]
    simpa [fetched] using h.service (.inl own) hstep serving (.inl rfl)
  | @shutdownReturns err here stage =>
    simp only [fetched, List.append_nil]
    exact ⟨h.orderly, h.closing, h.single, h.handled, h.settled, h.numbered, h.current,
      h.justified, h.early, h.late, by simp [stage], fun _ => ⟨err, stage⟩, by simp⟩
  | exit here loop =>
    simp only [fetched, List.append_nil]
    have serving := h.serving
    rw [here] at serving
    exact ⟨h.orderly, h.closing, h.single, h.handled, h.settled, h.numbered, h.current,
      h.justified, h.early, h.late, by simpa using serving, fun _ => h.stopped (.inl here),
      fun _ => loop⟩

theorem Inv.run {acts : List Act} (h : Foundation.run (Process.step cfg) .new acts = some p) :
    Inv cfg (observe (Process.step cfg) fetched .new acts) p :=
  Meets.observed fetched (fun _ seen p => Inv cfg seen p)
    (fun _ _ _ _ _ inv _ hs => inv.step hs) (Meets.of_forall (fun _ _ => trivial)) h .new

/-! ## One message at a time, and none left behind -/

/-- Outside `Handle` nothing is left of any call. -/
theorem Inv.quiet (h : Inv cfg seen p) (outside : ∀ m c, p.loop ≠ .handling m c) :
    (∀ c f, p.service.flights c = some f → f.rest.result.isSome) ∧ p.service.wg = 0 ∧
      p.service.sessions = ∅ ∧ p.service.tracked = ∅ := by
  obtain ⟨phase, orderly⟩ := h.orderly
  have returned : ∀ c f, p.service.flights c = some f → f.rest.result.isSome := by
    intro c f hf
    rw [Option.isSome_iff_ne_none]
    intro hresult
    obtain ⟨m, hm⟩ := h.single c f hf hresult
    exact outside m c hm
  have zero : p.service.wg = 0 := by
    rw [orderly.counted]
    by_contra some
    obtain ⟨c, -, hc⟩ := exists_of_population some
    cases hf : p.service.flights c with
    | none => simp [orderly.absent c hf, Phase.counted] at hc
    | some f =>
      obtain ⟨result, hresult⟩ := Option.isSome_iff_exists.mp (returned c f hf)
      have ended := orderly.follows c f hf
      rw [result_eq_some.mp hresult] at ended
      rcases ended with ⟨e, -⟩ | e <;> simp [e, Phase.counted] at hc
  exact ⟨returned, zero, orderly.empty zero⟩

/-- What holds in every state of the process, for the messages it has fetched. -/
structure Safe (cfg : Config) (seen : List (Bool × Fetched)) (p : Process) : Prop where
  /-- At most one `Handle` call has not returned. -/
  single : ∀ c d f g, p.service.flights c = some f → p.service.flights d = some g →
    f.rest.result = none → g.rest.result = none → c = d
  /-- Every fetched message is settled, in the order of the fetches, up to the current one, -/
  settled : seen.map (·.2) = p.settled.map (·.1) ++ p.loop.message.toList
  /-- and that by what `Handle` returned for it: the calls are numbered as the messages are. -/
  justified : ∀ i entry, p.settled[i]? = some entry → SettledBy cfg p.service i entry
  /-- After the signal at most one message is fetched. -/
  late : (seen.filter (·.1)).length ≤ 1
  /-- When `main` returns, every message is settled, every call has returned, and no session is
  left, whatever `Shutdown` returned. -/
  exited : p.main = .returned → seen.map (·.2) = p.settled.map (·.1) ∧
    (∀ c f, p.service.flights c = some f → f.rest.result.isSome) ∧ p.service.wg = 0 ∧
      p.service.sessions = ∅ ∧ p.service.tracked = ∅

/-- The process handles one message at a time, settles what it fetches, and leaves nothing behind.
Nothing is assumed about the agent. -/
theorem process_safe {acts : List Act} (h : run (step cfg) .new acts = some p) :
    Safe cfg (observe (step cfg) fetched .new acts) p := by
  have inv := Process.Inv.run h
  refine ⟨?_, inv.settled, inv.justified, le_trans (Nat.le_add_right _ _) inv.late, ?_⟩
  · intro c d f g hf hg hresult hresult'
    obtain ⟨m, hm⟩ := inv.single c f hf hresult
    obtain ⟨m', hm'⟩ := inv.single d g hg hresult'
    rw [hm] at hm'
    cases hm'
    rfl
  · intro hmain
    have hloop := inv.exited hmain
    have settled := inv.settled
    rw [hloop] at settled
    exact ⟨by simpa [RunLoop.message] using settled, inv.quiet (by simp [hloop])⟩

/-! ## The process can always exit -/

/-- The steps of a process that is told to stop: answers to the calls of the message in work, and
its own steps. A fetch brings no message, and does not fail either. -/
def finishing : Act → Bool
  | .poll | .fetchNothing | .handle | .work _ | .settle | .endBatch false | .shutdown | .service _
  | .shutdownReturns | .exit => true
  | .signal | .fetch _ | .fetchFails | .endBatch true => false

theorem effect_possible (s : Service) (op : Op) : ∃ ans t, s.effect ⟨op, ans⟩ = some t := by
  cases op with
  | enter => exact ⟨!s.shuttingDown, _, effect_enter.mpr ⟨rfl, rfl⟩⟩
  | now => exact ⟨"", s, rfl⟩
  | publish => exact ⟨.acked, s, rfl⟩
  | initOnce | getMetrics | traceID => exact ⟨none, s, rfl⟩
  | newSession | prompt => exact ⟨.ok "", s, rfl⟩
  | done | registerSession | deregisterSession | startSession | updateTokens | endSession =>
    exact ⟨(), _, rfl⟩

/-- A `Handle` call returns after finitely many answers. -/
theorem handler_returns {m : Fetched} {c : ℕ} (rest : Proc (Except GoError Unit)) :
    ∀ (p : Process) (past : Trace), p.loop = .handling m c →
      p.service.flights c = some ⟨past, rest⟩ →
      ∃ acts q f result, (∀ a ∈ acts, finishing a) ∧ run (step cfg) p acts = some q ∧
        q.loop = .handling m c ∧ q.service.flights c = some f ∧ f.rest.result = some result ∧
        q.signalled = p.signalled ∧ q.main = p.main ∧ q.service.stage = p.service.stage := by
  induction rest with
  | ret result =>
    intro p past here hf
    exact ⟨[], p, _, result, by simp, rfl, here, hf, rfl, rfl, rfl, rfl⟩
  | call op next ih =>
    intro p past here hf
    obtain ⟨ans, t, ht⟩ := effect_possible p.service op
    obtain ⟨-, -, -, hstage, -⟩ := effect_frame ht
    have hadvance : (Prog.call op next).advance ⟨op, ans⟩ = some (next ans) :=
      advance_eq_some.mpr ⟨next, rfl, rfl⟩
    obtain ⟨service, hservice, hflight, hstage⟩ : ∃ service,
        serviceStep cfg p.service (.call c ⟨op, ans⟩) = some service ∧
        service.flights c = some ⟨past ++ [⟨op, ans⟩], next ans⟩ ∧
        service.stage = p.service.stage := by
      refine ⟨{ t with
          flights := Function.update t.flights c (some ⟨past ++ [⟨op, ans⟩], next ans⟩) },
        ?_, Function.update_self .., hstage⟩
      simp [serviceStep, hf, hadvance, ht]
    obtain ⟨acts, q, f, result, own, hrun, hloop, hq, hresult, hsignalled, hmain, hstage'⟩ :=
      ih ans { p with service } _ here hflight
    refine ⟨.work ⟨op, ans⟩ :: acts, q, f, result, List.forall_mem_cons.mpr ⟨rfl, own⟩,
      run_cons.mpr ⟨{ p with service }, ?_, hrun⟩, hloop, hq, hresult, hsignalled, hmain,
      hstage'.trans hstage⟩
    simp [step, here, hservice]

/-- Once the signal has come the loop can return. -/
theorem Inv.loop_returns (h : Inv cfg seen p) (signalled : p.signalled) :
    ∃ acts q, (∀ a ∈ acts, finishing a) ∧ Foundation.run (Process.step cfg) p acts = some q ∧
      q.loop = .returned ∧ q.signalled ∧ q.main = p.main ∧
      q.service.stage = p.service.stage := by
  have atEnd : ∀ p : Process, p.signalled → p.loop = .ending →
      Foundation.run (Process.step cfg) p [.endBatch false, .poll] =
        some { p with loop := .returned } := by
    intro p hs here
    simp [Foundation.run, Process.step, here, hs]
  have inside : ∀ (p : Process) m c f, p.signalled → p.loop = .handling m c →
      p.service.flights c = some f → ∃ acts q, (∀ a ∈ acts, finishing a) ∧
        Foundation.run (Process.step cfg) p acts = some q ∧ q.loop = .returned ∧ q.signalled ∧
        q.main = p.main ∧ q.service.stage = p.service.stage := by
    intro p m c f hs here hf
    obtain ⟨acts, q, f', result, own, hrun, hloop, hq, hresult, hsignalled, hmain, hstage⟩ :=
      handler_returns f.rest p f.past here hf
    have hsettle : Process.step cfg q .settle = some { q with
        loop := .ending, settled := q.settled ++ [(m, processMessage m.numDelivered result)] } := by
      simp [Process.step, hloop, hq, hresult]
    have hs' : q.signalled := hsignalled ▸ hs
    have hend := atEnd { q with
      loop := .ending, settled := q.settled ++ [(m, processMessage m.numDelivered result)] } hs' rfl
    refine ⟨acts ++ .settle :: [.endBatch false, .poll], { q with
      loop := .returned, settled := q.settled ++ [(m, processMessage m.numDelivered result)] },
      by simpa [or_imp, forall_and, finishing] using own,
      run_append.mpr ⟨q, hrun, run_cons.mpr ⟨_, hsettle, hend⟩⟩, rfl, hs', hmain, hstage⟩
  cases hloop : p.loop with
  | head => exact ⟨[.poll], { p with loop := .returned }, by simp [finishing],
      by simp [Foundation.run, Process.step, hloop, signalled], rfl, signalled, rfl, rfl⟩
  | fetching => exact ⟨[.fetchNothing, .endBatch false, .poll], { p with loop := .returned },
      by simp [finishing],
      by simp [Foundation.run, Process.step, hloop, signalled], rfl, signalled, rfl, rfl⟩
  | ending => exact ⟨[.endBatch false, .poll], _, by simp [finishing], atEnd p signalled hloop,
      rfl, signalled, rfl, rfl⟩
  | returned => exact ⟨[], p, by simp, rfl, hloop, signalled, rfl, rfl⟩
  | handling m c =>
    obtain ⟨f, hf, -⟩ := h.handled m c hloop
    exact inside p m c f signalled hloop hf
  | holding m =>
    obtain ⟨service, hservice, hflight, hstage⟩ : ∃ service,
        serviceStep cfg p.service (.handle m.data) = some service ∧
        service.flights p.service.next = some ⟨[], Proxy.handle cfg m.data⟩ ∧
        service.stage = p.service.stage := ⟨_, rfl, Function.update_self .., rfl⟩
    have hstep : Process.step cfg p .handle =
        some { p with service, loop := .handling m p.service.next } := by
      simp [Process.step, hloop, hservice]
    obtain ⟨acts, q, own, hrun, hreturned, hs, hmain, hstage'⟩ :=
      inside { p with service, loop := .handling m p.service.next } m _ _ signalled rfl hflight
    exact ⟨.handle :: acts, q, List.forall_mem_cons.mpr ⟨rfl, own⟩,
      run_cons.mpr ⟨_, hstep, hrun⟩, hreturned, hs, hmain, hstage'.trans hstage⟩

theorem run_service {p : Process} {acts : List ServiceAct} {service : Service}
    (own : ∀ a ∈ acts, ofShutdown a) (h : run (serviceStep cfg) p.service acts = some service) :
    run (step cfg) p (acts.map .service) = some { p with service } := by
  induction acts generalizing p with
  | nil =>
    cases h
    rfl
  | cons a acts ih =>
    obtain ⟨u, hu, hrest⟩ := run_cons.mp h
    refine run_cons.mpr ⟨{ p with service := u }, ?_, ?_⟩
    · simp [step, own a List.mem_cons_self, hu]
    · exact ih (p := { p with service := u }) (fun b hb => own b (List.mem_cons_of_mem a hb)) hrest

/-- With nobody inside, `Shutdown` can return, and without an error if the grace period is not
over. -/
theorem shutdown_returns (cfg : Config) {s : Service} (zero : s.wg = 0)
    (started : s.stage ≠ .idle) :
    ∃ acts t err, (∀ a ∈ acts, ofShutdown a) ∧ run (serviceStep cfg) s acts = some t ∧
      t.stage = .returned err ∧ (s.stage = .waiting → err = none) := by
  by_cases waiting : s.stage = .waiting
  · refine ⟨[.drain, .finish], { s with
      done := true, workCancelled := true, stage := .returned none }, none, by simp [ofShutdown],
      ?_, rfl, fun _ => rfl⟩
    simp [run, serviceStep, waiting, zero]
  · obtain ⟨acts, t, cancels, hrun, listed⟩ := sweep_completes cfg ⟨started, waiting⟩
    have own : ∀ a ∈ acts, ofShutdown a := by
      intro a ha
      have := cancels a ha
      cases a <;> simp_all [ServiceAct.cancels, ofShutdown]
    cases ht : t.stage with
    | returned err => exact ⟨acts, t, err, own, hrun, ht, fun w => absurd w waiting⟩
    | waitingAgain =>
      refine ⟨acts ++ [.exitTimer], { t with stage := .returned (some timedOut) }, some timedOut,
        ?_, run_snoc.mpr ⟨t, hrun, by simp [serviceStep, ht]⟩, rfl, fun w => absurd w waiting⟩
      simpa [or_imp, forall_and, ofShutdown] using own
    | _ => simp [ht, Stage.listed] at listed

/-- Where the loop has returned, `main` can too. -/
theorem Inv.main_returns (h : Inv cfg seen p) (signalled : p.signalled)
    (loop : p.loop = .returned) :
    ∃ later q, (∀ a ∈ later, finishing a) ∧
      Foundation.run (Process.step cfg) p later = some q ∧ q.main = .returned ∧
      (p.service.stage = .idle ∨ p.service.stage = .waiting →
        q.service.stage = .returned none) := by
  obtain ⟨-, zero, -⟩ := h.quiet (by simp [loop])
  have stopping : ∀ p : Process, p.loop = .returned → p.main = .stopping → p.service.wg = 0 →
      p.service.stage ≠ .idle → ∃ later q, (∀ a ∈ later, finishing a) ∧
        Foundation.run (Process.step cfg) p later = some q ∧ q.main = .returned ∧
        (p.service.stage = .waiting → q.service.stage = .returned none) := by
    intro p loop main zero started
    obtain ⟨acts, t, err, own, hrun, ht, graceful⟩ := shutdown_returns cfg zero started
    refine ⟨acts.map .service ++ [.shutdownReturns, .exit],
      { p with service := t, main := .returned }, by simp [or_imp, forall_and, finishing], ?_, rfl,
      fun waiting => by rw [ht, graceful waiting]⟩
    refine run_append.mpr ⟨{ p with service := t }, run_service own hrun, ?_⟩
    simp [Foundation.run, Process.step, main, ht, loop]
  cases hmain : p.main with
  | serving =>
    have idle := h.serving.mp hmain
    obtain ⟨later, q, own, hrun, hexit, graceful⟩ := stopping { p with
      service := { p.service with shuttingDown := true, stage := .waiting }, main := .stopping }
      loop rfl zero (by simp)
    refine ⟨.shutdown :: later, q, List.forall_mem_cons.mpr ⟨rfl, own⟩,
      run_cons.mpr ⟨_, ?_, hrun⟩, hexit, fun _ => graceful rfl⟩
    simp [Process.step, hmain, signalled, serviceStep, idle]
  | stopping =>
    have started : p.service.stage ≠ .idle := by simp [← h.serving, hmain]
    obtain ⟨later, q, own, hrun, hexit, graceful⟩ := stopping p loop hmain zero started
    exact ⟨later, q, own, hrun, hexit, fun early => graceful (early.resolve_left started)⟩
  | draining =>
    obtain ⟨err, herr⟩ := h.stopped (.inl hmain)
    refine ⟨[.exit], { p with main := .returned }, by simp [finishing], ?_, rfl, by simp [herr]⟩
    simp [Foundation.run, Process.step, hmain, loop]
  | returned =>
    obtain ⟨err, herr⟩ := h.stopped (.inr hmain)
    exact ⟨[], p, by simp, rfl, hmain, by simp [herr]⟩

/-- From every state after the signal the process can exit, by answers to the calls of the message
in work and by its own steps. As long as the grace period is not over, `Shutdown` then returns no
error. -/
theorem process_can_exit {acts : List Act} (h : run (step cfg) .new acts = some p)
    (signalled : p.signalled) :
    ∃ later q, (∀ a ∈ later, finishing a) ∧ run (step cfg) p later = some q ∧
      q.main = .returned ∧ (p.service.stage = .idle ∨ p.service.stage = .waiting →
        q.service.stage = .returned none) := by
  obtain ⟨acts₁, q, own₁, hq, loop, signalled, -, hstage⟩ :=
    (Process.Inv.run h).loop_returns signalled
  have inv := Process.Inv.run (run_append.mpr ⟨p, h, hq⟩)
  obtain ⟨acts₂, r, own₂, hr, hexit, graceful⟩ := inv.main_returns signalled loop
  exact ⟨acts₁ ++ acts₂, r, List.forall_mem_append.mpr ⟨own₁, own₂⟩,
    run_append.mpr ⟨q, hq, hr⟩, hexit, hstage ▸ graceful⟩

/-- A message is handled and acknowledged; the signal comes during the next fetch, which still
brings a message. It is rejected and given back. -/
def lastMessage : List Act :=
  [.poll, .fetch ⟨.ok greeting, 1⟩, .handle, .work ⟨.enter, true⟩, .work ⟨.initOnce, none⟩,
   .work ⟨.newSession, .ok "s"⟩, .work ⟨.registerSession "s", ()⟩,
   .work ⟨.startSession "s" "t" 0, ()⟩, .work ⟨.prompt "s" "hi", .ok "hello"⟩,
   .work ⟨.updateTokens "s" 1, ()⟩, .work ⟨.now, "1"⟩, .work ⟨.getMetrics "s", none⟩,
   .work ⟨.traceID, none⟩, .work ⟨.deregisterSession "s", ()⟩, .work ⟨.endSession "s", ()⟩,
   .work ⟨.done, ()⟩, .settle, .endBatch false, .poll, .signal, .shutdown,
   .fetch ⟨.ok greeting, 2⟩, .handle, .work ⟨.enter, false⟩, .settle]

theorem lastMessage_observed :
    ((run (step silent) .new lastMessage).map fun p => (p.settled.map (·.2), p.signalled)) =
      some ([.ack, .nak], true) := by decide +kernel

theorem process_safe_lastMessage :
    ∃ p, run (step silent) .new lastMessage = some p ∧ p.settled.map (·.2) = [.ack, .nak] ∧
      Safe silent (observe (step silent) fetched .new lastMessage) p := by
  obtain ⟨p, hp, e⟩ := Option.map_eq_some_iff.mp lastMessage_observed
  exact ⟨p, hp, (Prod.mk.inj e).1, process_safe hp⟩

theorem process_can_exit_lastMessage :
    ∃ p later q, run (step silent) .new lastMessage = some p ∧ p.signalled = true ∧
      (∀ a ∈ later, finishing a) ∧ run (step silent) p later = some q ∧ q.main = .returned := by
  obtain ⟨p, hp, e⟩ := Option.map_eq_some_iff.mp lastMessage_observed
  have signalled : p.signalled = true := (Prod.mk.inj e).2
  obtain ⟨later, q, own, hq, hexit, -⟩ := process_can_exit hp signalled
  exact ⟨p, later, q, hp, signalled, own, hq, hexit⟩

end Process

end Daedalus.Proxy
