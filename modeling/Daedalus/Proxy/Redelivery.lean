import Daedalus.Foundation.Lease
import Daedalus.Proxy.Delivery

/-!
# Redelivery

The durable consumer of `internal/queue/nats.go` has an `AckWait` of 30 seconds and a `MaxDeliver`
of 3. Any number of proxies fetch from it. A proxy may die while it works on a message, a settlement
may fail, and `AckWait` may pass while a `Handle` is still at work, since nothing extends it. Then
the message is given out again, next to the attempt in progress.

A message that is acknowledged has had its result published. One that JetStream gives up on has been
tried three times.
-/
namespace Daedalus.Proxy.Redelivery

open Foundation A2A Queue Prog

/-- An execution of `Handle`, with what it returned. -/
abbrev Outcome := Trace × Except GoError Unit

/-- `processMessage` removes the message, by `Ack` or `Term`. -/
def removes (numDelivered : ℕ) (outcome : Outcome) : Bool :=
  (processMessage numDelivered outcome.2).removes

structure Request where
  data : Except GoError SendMessageRequest
  lease : Lease.Message Outcome

/-- How `processMessage` settled the given attempt. -/
def Request.disposition (q : Request) (attempt : ℕ) : Option Disposition :=
  match q.lease.attempts[attempt]? with
  | some (.returned (_, result) _) => some (processMessage (attempt + 1) result)
  | _ => none

theorem Request.disposition_eq_some {q : Request} {attempt : ℕ} {d : Disposition} :
    q.disposition attempt = some d ↔ ∃ es result heard,
      q.lease.attempts[attempt]? = some (.returned (es, result) heard) ∧
      processMessage (attempt + 1) result = d := by
  unfold Request.disposition
  constructor
  · intro h
    split at h
    · exact ⟨_, _, _, ‹_›, Option.some.inj h⟩
    · cases h
  · rintro ⟨es, result, heard, returned, rfl⟩
    rw [returned]

abbrev Stream := ℕ → Option Request

inductive Act where
  | publish (m : ℕ) (data : Except GoError SendMessageRequest)
  /-- A proxy fetches the message. -/
  | deliver (m : ℕ)
  /-- `AckWait` has passed. -/
  | expire (m : ℕ)
  /-- A proxy dies in the given attempt. -/
  | die (m attempt : ℕ)
  /-- `Handle` returns and `processMessage` settles the message, which JetStream may not hear. -/
  | settle (m attempt : ℕ) (es : Trace) (heard : Bool)

/-- The message and the attempt that ends. -/
def Act.ends : Act → Option (ℕ × ℕ)
  | .die m attempt | .settle m attempt _ _ => some (m, attempt)
  | _ => none

/-- A step of one message. -/
def lease (s : Stream) (m : ℕ) (a : Lease.Act Outcome) : Option Stream :=
  (s m).bind fun q =>
  (Lease.step defaultMaxDeliver removes q.lease a).map fun lease =>
    Function.update s m (some { q with lease })

def step (cfg : Config) (s : Stream) : Act → Option Stream
  | .publish m data =>
    if (s m).isNone then some (Function.update s m (some ⟨data, .new⟩)) else none
  | .deliver m => lease s m .deliver
  | .expire m => lease s m .expire
  | .die m attempt => lease s m (.die attempt)
  | .settle m attempt es heard =>
    (s m).bind fun q =>
    (replay (handle cfg q.data) es).bind fun result =>
      lease s m (.finish attempt (es, result) heard)

/-- `AckWait` passes only after the attempts have ended. -/
def Patient (s : Stream) : Act → Prop
  | .expire m => ∀ q ∈ s m, Lease.Patient q.lease .expire
  | _ => True

instance (s : Stream) (a : Act) : Decidable (Patient s a) :=
  match a with
  | .expire m => inferInstanceAs (Decidable (∀ q ∈ s m, Lease.Patient q.lease .expire))
  | .publish _ _ | .deliver _ | .die _ _ | .settle _ _ _ _ => isTrue trivial

section Steps

variable {cfg : Config} {s t : Stream} {a : Act}

theorem lease_cases {m : ℕ} {b : Lease.Act Outcome} (h : lease s m b = some t) :
    ∃ q lease, s m = some q ∧ Lease.step defaultMaxDeliver removes q.lease b = some lease ∧
      t = Function.update s m (some { q with lease }) := by
  simp only [lease, Option.bind_eq_some_iff, Option.map_eq_some_iff] at h
  obtain ⟨q, hq, lease, hl, rfl⟩ := h
  exact ⟨q, lease, hq, hl, rfl⟩

/-- A message is published, or takes a step; what a finished attempt reports is what `Handle`
returned. -/
theorem step_cases (h : step cfg s a = some t) :
    (∃ m data, s m = none ∧ t = Function.update s m (some ⟨data, .new⟩)) ∨
    ∃ m q b lease, s m = some q ∧ Lease.step defaultMaxDeliver removes q.lease b = some lease ∧
      t = Function.update s m (some { q with lease }) ∧
      (Patient s a → Lease.Patient q.lease b) ∧
      ∀ i es result heard, b = .finish i (es, result) heard →
        replay (handle cfg q.data) es = some result := by
  cases a with
  | publish m data =>
    simp only [step] at h
    split_ifs at h with new
    cases h
    exact .inl ⟨m, data, Option.isNone_iff_eq_none.mp new, rfl⟩
  | deliver m =>
    obtain ⟨q, lease, hq, hl, rfl⟩ := lease_cases h
    exact .inr ⟨m, q, _, lease, hq, hl, rfl, fun _ => trivial, by simp⟩
  | expire m =>
    obtain ⟨q, lease, hq, hl, rfl⟩ := lease_cases h
    exact .inr ⟨m, q, _, lease, hq, hl, rfl, fun patient => patient q hq, by simp⟩
  | die m attempt =>
    obtain ⟨q, lease, hq, hl, rfl⟩ := lease_cases h
    exact .inr ⟨m, q, _, lease, hq, hl, rfl, fun _ => trivial, by simp⟩
  | settle m attempt es heard =>
    simp only [step, Option.bind_eq_some_iff] at h
    obtain ⟨q, hq, result, replayed, h⟩ := h
    obtain ⟨q', lease, hq', hl, rfl⟩ := lease_cases h
    obtain rfl : q = q' := Option.some.inj (hq.symm.trans hq')
    refine .inr ⟨m, q, _, lease, hq, hl, rfl, fun _ => trivial, ?_⟩
    rintro _ _ _ _ ⟨⟩
    exact replayed

/-- What a step does to the attempts of message `m`. -/
inductive Touched (m : ℕ) (s : Stream) (a : Act) : Stream → Prop
  | untouched {t : Stream} (same : t m = s m) : Touched m s a t
  | published {t : Stream} {q : Request} (new : s m = none) (hq : t m = some q)
    (none : q.lease.attempts = []) : Touched m s a t
  | delivered {t : Stream} {q q' : Request} (act : a = .deliver m) (hq : s m = some q)
    (hq' : t m = some q') (attempts : q'.lease.attempts = q.lease.attempts ++ [.running]) :
    Touched m s a t
  | kept {t : Stream} {q q' : Request} (hq : s m = some q) (hq' : t m = some q')
    (attempts : q'.lease.attempts = q.lease.attempts) : Touched m s a t
  | ended {t : Stream} {q q' : Request} {i : ℕ} {b : Lease.Attempt Outcome}
    (act : a.ends = some (m, i)) (hq : s m = some q) (hq' : t m = some q')
    (attempts : q'.lease.attempts = q.lease.attempts.set i b) : Touched m s a t

theorem lease_touched {m m' : ℕ} {b : Lease.Act Outcome} (h : lease s m' b = some t)
    (given : b = .deliver → a = .deliver m')
    (ends : ∀ i, b.ends = some i → a.ends = some (m', i)) : Touched m s a t := by
  obtain ⟨q, lease, hq, hl, rfl⟩ := lease_cases h
  by_cases hm : m = m'
  · subst hm
    have hq' : Function.update s m (some { q with lease }) m = some { q with lease } := by simp
    obtain ⟨rfl, attempts⟩ | ⟨-, attempts⟩ | ⟨i, b, hb, attempts⟩ := Lease.attempts_of_step hl
    · exact .delivered (given rfl) hq hq' attempts
    · exact .kept hq hq' attempts
    · exact .ended (ends i hb) hq hq' attempts
  · exact .untouched (by simp [hm])

theorem touched (h : step cfg s a = some t) (m : ℕ) : Touched m s a t := by
  cases a with
  | publish m' data =>
    simp only [step] at h
    split_ifs at h with new
    cases h
    by_cases hm : m = m'
    · subst hm
      exact .published (Option.isNone_iff_eq_none.mp new) (Function.update_self ..) rfl
    · exact .untouched (by simp [hm])
  | deliver m' => exact lease_touched h (fun _ => rfl) (by simp [Lease.Act.ends])
  | expire m' => exact lease_touched h (by simp) (by simp [Lease.Act.ends])
  | die m' attempt => exact lease_touched h (by simp) (by simp [Lease.Act.ends, Act.ends])
  | settle m' attempt es heard =>
    simp only [step, Option.bind_eq_some_iff] at h
    obtain ⟨q, -, result, -, h⟩ := h
    exact lease_touched h (by simp) (by simp [Lease.Act.ends, Act.ends])

/-- What holds of a new message and is preserved by the steps of one message holds of all. -/
theorem messages_invariant (Inv : Request → Prop) (new : ∀ data, Inv ⟨data, .new⟩)
    (preserved : ∀ q b lease, Inv q → Lease.step defaultMaxDeliver removes q.lease b = some lease →
      (Patient s a → Lease.Patient q.lease b) →
      (∀ i es result heard, b = .finish i (es, result) heard →
        replay (handle cfg q.data) es = some result) → Inv { q with lease })
    (h : step cfg s a = some t) (hs : ∀ m q, s m = some q → Inv q) :
    ∀ m q, t m = some q → Inv q := by
  obtain ⟨m, data, -, rfl⟩ | ⟨m, q, b, lease, hq, hl, rfl, patient, genuine⟩ := step_cases h
  · intro m' q' hq'
    rw [Function.update_apply] at hq'
    split_ifs at hq'
    · cases hq'
      exact new data
    · exact hs m' q' hq'
  · intro m' q' hq'
    rw [Function.update_apply] at hq'
    split_ifs at hq'
    · cases hq'
      exact preserved q b lease (hs m q hq) hl patient genuine
    · exact hs m' q' hq'

end Steps

/-- What is known of a message. -/
structure Kept (cfg : Config) (q : Request) : Prop where
  books : Lease.Inv defaultMaxDeliver removes q.lease
  /-- The attempts are executions of `Handle`. -/
  genuine : ∀ es result heard, .returned (es, result) heard ∈ q.lease.attempts →
    replay (handle cfg q.data) es = some result

theorem Kept.run {cfg : Config} {acts : List Act} {s : Stream}
    (h : run (step cfg) (fun _ => none) acts = some s) : ∀ m q, s m = some q → Kept cfg q := by
  refine run_invariant (fun s => ∀ m q, s m = some q → Kept cfg q) ?_ h (by simp)
  intro s a t hs hstep
  refine messages_invariant (Kept cfg) ?_ ?_ hstep hs
  · intro data
    exact ⟨.new, by simp [Lease.Message.new]⟩
  · intro q b lease kept hl _ genuine
    refine ⟨kept.books.step hl, ?_⟩
    intro es result heard hmem
    rcases Lease.returned_of_step hl hmem with old | ⟨i, rfl⟩
    · exact kept.genuine es result heard old
    · exact genuine i es result heard rfl

/-- On its last delivery a message is removed, whatever `Handle` returned. -/
theorem removes_last (outcome : Outcome) : removes defaultMaxDeliver outcome := by
  obtain ⟨es, result⟩ := outcome
  cases result with
  | error err => simp [removes, processMessage, Disposition.removes]
  | ok u => rfl

/-- A `Handle` that returned no error has published its result. -/
theorem published_of_ok {cfg : Config} {req : SendMessageRequest} {es : Trace} (hp : cfg.publisher)
    (h : replay (handle cfg (.ok req)) es = some (.ok ())) :
    ∃ task, ("agent.results." ++ chooseTaskID req, .task task, .acked) ∈ publications es := by
  cases handle_exit hp h with
  | ended t p let_in published ending =>
    cases ending with
    | done text content t t' metadata p =>
      refine ⟨buildTask (chooseTaskID req) req.message.contextID content t metadata, ?_⟩
      rw [published]
      exact List.mem_cons_of_mem _ List.mem_cons_self

/-- A message is removed after a success, or after its last delivery. -/
theorem removes_cases {numDelivered : ℕ} {es : Trace} {result : Except GoError Unit}
    (h : removes numDelivered (es, result)) :
    result = .ok () ∨ defaultMaxDeliver ≤ numDelivered ∧ ∃ err, result = .error err := by
  cases result with
  | ok u => exact .inl rfl
  | error err =>
    refine .inr ⟨?_, err, rfl⟩
    by_contra early
    simp [removes, processMessage, early, Disposition.removes] at h

/-- As long as a message has deliveries left, it is given out again once `AckWait` has passed. -/
theorem Kept.redelivered {cfg : Config} {s : Stream} {m : ℕ} {q : Request} (kept : Kept cfg q)
    (hq : s m = some q) (open_ : q.lease.removedBy = none)
    (room : q.lease.attempts.length < defaultMaxDeliver) :
    ∃ later t q', Foundation.run (step cfg) s later = some t ∧ t m = some q' ∧
      q'.lease.attempts = q.lease.attempts ++ [.running] := by
  let q' : Request := { q with lease :=
    { q.lease with attempts := q.lease.attempts ++ [.running], due := false } }
  cases hdue : q.lease.due with
  | true =>
    refine ⟨[.deliver m], Function.update s m (some q'), q', ?_, by simp, rfl⟩
    simp [Foundation.run, step, lease, Lease.step, hq, hdue, open_, room, q']
  | false =>
    have begun : q.lease.attempts ≠ [] := by simpa using kept.books.waiting open_ hdue
    refine ⟨[.expire m, .deliver m], Function.update s m (some q'), q', ?_, by simp, rfl⟩
    simp [Foundation.run, step, lease, Lease.step, hq, open_, room, begun, q']

/-- What becomes of a message. It is tried at most three times. If it is removed, then by an attempt
that published its result, or by the third attempt, which failed. If it is not removed, it can be
given out again, or JetStream has heard nothing of its third attempt. -/
theorem message_fate {cfg : Config} (hp : cfg.publisher) {acts : List Act} {s : Stream}
    (h : run (step cfg) (fun _ => none) acts = some s) {m : ℕ} {q : Request}
    (hq : s m = some q) {req : SendMessageRequest} (hdata : q.data = .ok req) :
    q.lease.attempts.length ≤ 3 ∧
    (∀ i, q.lease.removedBy = some i → ∃ es result,
      q.lease.attempts[i]? = some (.returned (es, result) true) ∧
      replay (handle cfg (.ok req)) es = some result ∧
      ((∃ task, ("agent.results." ++ chooseTaskID req, .task task, .acked) ∈ publications es) ∨
        i = 2 ∧ ∃ err, result = .error err)) ∧
    (q.lease.removedBy = none →
      (∃ later t q', run (step cfg) s later = some t ∧ t m = some q' ∧
        q'.lease.attempts = q.lease.attempts ++ [.running]) ∨
      ∃ b, q.lease.attempts[2]? = some b ∧ b.unheard) := by
  have kept := Kept.run h m q hq
  have bounded : q.lease.attempts.length ≤ 3 := kept.books.bounded
  refine ⟨bounded, ?_, ?_⟩
  · intro i hi
    obtain ⟨⟨es, result⟩, returned, removed⟩ := kept.books.removed i hi
    have replayed := kept.genuine es result true (List.mem_of_getElem? returned)
    rw [hdata] at replayed
    refine ⟨es, result, returned, replayed, ?_⟩
    rcases removes_cases removed with rfl | ⟨third, failed⟩
    · exact .inl (published_of_ok hp replayed)
    · obtain ⟨hlt, -⟩ := List.getElem?_eq_some_iff.mp returned
      have third : 3 ≤ i + 1 := third
      exact .inr ⟨by omega, failed⟩
  · intro open_
    by_cases room : q.lease.attempts.length < 3
    · exact .inl (kept.redelivered hq open_ room)
    · exact .inr (kept.books.exhausted removes_last open_ room (by decide))

/-- The first proxy dies, the settlement of the second is not heard, the third publishes. -/
def thirdTime : List Act := [
  .publish 0 (.ok question), .deliver 0, .die 0 0, .expire 0, .deliver 0,
  .settle 0 1 failedTrace false, .expire 0, .deliver 0,
  .settle 0 2 (answered .acked completedStatus) true]

theorem message_fate_thirdTime : ∃ s q, run (step {}) (fun _ => none) thirdTime = some s ∧
    s 0 = some q ∧ q.lease.removedBy = some 2 ∧ ∃ es result,
      q.lease.attempts[2]? = some (.returned (es, result) true) ∧
      replay (handle {} (.ok question)) es = some result := by
  have observed : (run (step {}) (fun _ => none) thirdTime).bind (fun s =>
      (s 0).map fun q => (q.data.toOption, q.lease.removedBy)) = some (some question, some 2) := by
    decide
  obtain ⟨s, hs, hq⟩ := Option.bind_eq_some_iff.mp observed
  obtain ⟨q, hq, e⟩ := Option.map_eq_some_iff.mp hq
  obtain ⟨data, removed⟩ := Prod.mk.inj e
  obtain ⟨-, fate, -⟩ := message_fate rfl hs hq (toOption_eq_some.mp data)
  obtain ⟨es, result, returned, replayed, -⟩ := fate 2 removed
  exact ⟨s, q, hs, hq, removed, es, result, returned, replayed⟩

/-- `AckWait` passes while the first proxy works. The agent is prompted twice, and both results are
published. -/
def impatient : List Act := [
  .publish 0 (.ok question), .deliver 0, .expire 0, .deliver 0,
  .settle 0 1 (answered .acked completedStatus) true,
  .settle 0 0 (answered .acked completedStatus) true]

example : (run (step {}) (fun _ => none) (impatient.take 4)).bind (fun s =>
      (s 0).map fun q => q.lease.attempts.map (·.isRunning)) = some [true, true] ∧
    (run (step {}) (fun _ => none) impatient).isSome := by
  decide

end Daedalus.Proxy.Redelivery
