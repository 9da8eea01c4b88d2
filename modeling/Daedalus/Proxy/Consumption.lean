import Daedalus.Proxy.Redelivery

/-!
# The consumer loop under shutdown

Any number of proxies run `Consumer.Run` on one queue. A proxy polls, fetches a message, hands it
to its handler and settles it. `Handle` begins with a check under its lock: a handler that shuts
down rejects the message. The context of a proxy can be cancelled and its shutdown can start at any
moment, also between a fetch and the check. A proxy can die at any moment, and one that stopped or
died can be started again. The queue is that of `Redelivery`: it gives a message out again after a
`Nak` or when `AckWait` has passed, and a settlement may get lost.

The rejection of a message by a handler that shuts down is an error like any other for
`processMessage`. On the last delivery it terminates the message, and on an earlier one it
uses up a delivery.
-/
namespace Daedalus.Proxy

open Foundation A2A Queue Prog

/-- Where the loop of `Consumer.Run` is. A proxy that has fetched delivery `i` of message `m` holds
it until `Handle` has made its check. -/
inductive Loop where
  | idle
  | fetching
  | holding (m i : ℕ)
  | handling (m i : ℕ) (letIn : Bool)
  | stopped
  deriving DecidableEq, Repr

/-- A delivery of message `m` waits for the check of `Handle`. -/
def Loop.awaits (m : ℕ) : Loop → Bool
  | .holding m' _ => m' = m
  | _ => false

structure Worker where
  loop : Loop
  ctxDone : Bool
  shuttingDown : Bool

/-- The queue and the proxies. `checked` is auxiliary: the checks that `Handle` made for each
message, for which delivery and whether it let it in. -/
structure Pool where
  stream : Redelivery.Stream
  checked : ℕ → List (ℕ × Bool)
  workers : ℕ → Option Worker

def Pool.new : Pool := ⟨fun _ => none, fun _ => [], fun _ => none⟩

namespace Pool

def setWorker (s : Pool) (p : ℕ) (w : Worker) : Pool :=
  { s with workers := Function.update s.workers p (some w) }

def check (s : Pool) (m i : ℕ) (letIn : Bool) : Pool :=
  { s with checked := Function.update s.checked m (s.checked m ++ [(i, letIn)]) }

/-- A step of the queue. -/
def queue (cfg : Config) (s : Pool) (a : Redelivery.Act) : Option Pool :=
  (Redelivery.step cfg s.stream a).map fun stream => { s with stream }

end Pool

inductive PoolAct where
  | publish (m : ℕ) (data : Except GoError SendMessageRequest)
  /-- `AckWait` has passed. -/
  | expire (m : ℕ)
  /-- The queue gives a message out, and no proxy gets it. -/
  | miss (m : ℕ)
  /-- A proxy is started, for the first time or after it stopped. -/
  | start (p : ℕ)
  /-- The consumer context is cancelled. -/
  | cancel (p : ℕ)
  /-- `Shutdown` sets the flag of the handler. -/
  | shutdown (p : ℕ)
  /-- The process dies. -/
  | die (p : ℕ)
  /-- The head of the loop. -/
  | poll (p : ℕ)
  /-- `Fetch` returns a message, -/
  | fetch (p m : ℕ)
  /-- or nothing. -/
  | fetchEmpty (p : ℕ)
  /-- `Handle` reads the flag under its lock. -/
  | enter (p : ℕ)
  /-- `Handle` returns and `processMessage` settles the message, which the queue may not hear. -/
  | settle (p : ℕ) (es : Trace) (heard : Bool)

def poolStep (cfg : Config) (s : Pool) : PoolAct → Option Pool
  | .publish m data => s.queue cfg (.publish m data)
  | .expire m => s.queue cfg (.expire m)
  | .miss m => (s.stream m).bind fun q =>
    (s.queue cfg (.deliver m)).bind fun t => t.queue cfg (.die m q.lease.attempts.length)
  | .start p =>
    match s.workers p with
    | none => some (s.setWorker p ⟨.idle, false, false⟩)
    | some w => if w.loop = .stopped then some (s.setWorker p ⟨.idle, false, false⟩) else none
  | .cancel p => (s.workers p).map fun w => s.setWorker p { w with ctxDone := true }
  | .shutdown p => (s.workers p).map fun w => s.setWorker p { w with shuttingDown := true }
  | .die p => (s.workers p).bind fun w =>
    match w.loop with
    | .stopped => none
    | .idle | .fetching => some (s.setWorker p { w with loop := .stopped })
    | .holding m i | .handling m i _ =>
      (s.queue cfg (.die m i)).map fun t => t.setWorker p { w with loop := .stopped }
  | .poll p => (s.workers p).bind fun w =>
    if w.loop = .idle then
      some (s.setWorker p { w with loop := if w.ctxDone then .stopped else .fetching })
    else none
  | .fetch p m => (s.workers p).bind fun w => (s.stream m).bind fun q =>
    if w.loop = .fetching then
      (s.queue cfg (.deliver m)).map fun t =>
        t.setWorker p { w with loop := .holding m q.lease.attempts.length }
    else none
  | .fetchEmpty p => (s.workers p).bind fun w =>
    if w.loop = .fetching then some (s.setWorker p { w with loop := .idle }) else none
  | .enter p => (s.workers p).bind fun w =>
    match w.loop with
    | .holding m i => some ((s.check m i (!w.shuttingDown)).setWorker p
      { w with loop := .handling m i (!w.shuttingDown) })
    | _ => none
  | .settle p es heard => (s.workers p).bind fun w =>
    match w.loop with
    | .handling m i letIn =>
      if admitted es = letIn then
        (s.queue cfg (.settle m i es heard)).map fun t => t.setWorker p { w with loop := .idle }
      else none
    | _ => none

/-- What a step can do, with its guards. -/
inductive PoolMove (cfg : Config) (s : Pool) : PoolAct → Pool → Prop
  | publish {m : ℕ} {data : Except GoError SendMessageRequest} {t : Pool}
    (queue : s.queue cfg (.publish m data) = some t) : PoolMove cfg s (.publish m data) t
  | expire {m : ℕ} {t : Pool} (queue : s.queue cfg (.expire m) = some t) :
    PoolMove cfg s (.expire m) t
  | miss {m : ℕ} {q : Redelivery.Request} {t u : Pool} (hq : s.stream m = some q)
    (given : s.queue cfg (.deliver m) = some t)
    (lost : t.queue cfg (.die m q.lease.attempts.length) = some u) : PoolMove cfg s (.miss m) u
  /-- A proxy goes on with nothing in hand, or stops. -/
  | release {a : PoolAct} {p : ℕ} {w : Worker}
    (free : w.loop = .idle ∨ w.loop = .fetching ∨ w.loop = .stopped) :
    PoolMove cfg s a (s.setWorker p w)
  | cancel {p : ℕ} {w : Worker} (hw : s.workers p = some w) :
    PoolMove cfg s (.cancel p) (s.setWorker p { w with ctxDone := true })
  | shutdown {p : ℕ} {w : Worker} (hw : s.workers p = some w) :
    PoolMove cfg s (.shutdown p) (s.setWorker p { w with shuttingDown := true })
  | die {p m i : ℕ} {w : Worker} {t : Pool} (hw : s.workers p = some w)
    (inHand : w.loop = .holding m i ∨ ∃ letIn, w.loop = .handling m i letIn)
    (queue : s.queue cfg (.die m i) = some t) :
    PoolMove cfg s (.die p) (t.setWorker p { w with loop := .stopped })
  | fetch {p m : ℕ} {w : Worker} {q : Redelivery.Request} {t : Pool} (hw : s.workers p = some w)
    (hq : s.stream m = some q) (queue : s.queue cfg (.deliver m) = some t) :
    PoolMove cfg s (.fetch p m)
      (t.setWorker p { w with loop := .holding m q.lease.attempts.length })
  | enter {p m i : ℕ} {w : Worker} (hw : s.workers p = some w) (hloop : w.loop = .holding m i) :
    PoolMove cfg s (.enter p) ((s.check m i (!w.shuttingDown)).setWorker p
      { w with loop := .handling m i (!w.shuttingDown) })
  | settle {p m i : ℕ} {w : Worker} {letIn heard : Bool} {es : Trace} {t : Pool}
    (hw : s.workers p = some w) (hloop : w.loop = .handling m i letIn)
    (queue : s.queue cfg (.settle m i es heard) = some t) :
    PoolMove cfg s (.settle p es heard) (t.setWorker p { w with loop := .idle })

theorem poolStep_move {cfg : Config} {s t : Pool} {a : PoolAct}
    (hs : poolStep cfg s a = some t) : PoolMove cfg s a t := by
  cases a with
  | publish m data => exact .publish hs
  | expire m => exact .expire hs
  | miss m =>
    simp only [poolStep, Option.bind_eq_some_iff] at hs
    obtain ⟨q, hq, u, hu, hs⟩ := hs
    exact .miss hq hu hs
  | start p =>
    simp only [poolStep] at hs
    split at hs
    · cases hs
      exact .release (.inl rfl)
    · split_ifs at hs
      cases hs
      exact .release (.inl rfl)
  | cancel p =>
    obtain ⟨w, hw, rfl⟩ := Option.map_eq_some_iff.mp hs
    exact .cancel hw
  | shutdown p =>
    obtain ⟨w, hw, rfl⟩ := Option.map_eq_some_iff.mp hs
    exact .shutdown hw
  | die p =>
    obtain ⟨w, hw, hs⟩ := Option.bind_eq_some_iff.mp hs
    split at hs
    · cases hs
    · cases hs
      exact .release (.inr (.inr rfl))
    · cases hs
      exact .release (.inr (.inr rfl))
    · rename_i hloop
      obtain ⟨u, hu, rfl⟩ := Option.map_eq_some_iff.mp hs
      exact .die hw (.inl hloop) hu
    · rename_i letIn hloop
      obtain ⟨u, hu, rfl⟩ := Option.map_eq_some_iff.mp hs
      exact .die hw (.inr ⟨letIn, hloop⟩) hu
  | poll p =>
    obtain ⟨w, hw, hs⟩ := Option.bind_eq_some_iff.mp hs
    split_ifs at hs
    · cases hs
      exact .release (.inr (.inr rfl))
    · cases hs
      exact .release (.inr (.inl rfl))
  | fetch p m =>
    obtain ⟨w, hw, hs⟩ := Option.bind_eq_some_iff.mp hs
    obtain ⟨q, hq, hs⟩ := Option.bind_eq_some_iff.mp hs
    split_ifs at hs
    obtain ⟨u, hu, rfl⟩ := Option.map_eq_some_iff.mp hs
    exact .fetch hw hq hu
  | fetchEmpty p =>
    obtain ⟨w, hw, hs⟩ := Option.bind_eq_some_iff.mp hs
    split_ifs at hs
    cases hs
    exact .release (.inl rfl)
  | enter p =>
    obtain ⟨w, hw, hs⟩ := Option.bind_eq_some_iff.mp hs
    split at hs
    · rename_i hloop
      cases hs
      exact .enter hw hloop
    · cases hs
  | settle p es heard =>
    obtain ⟨w, hw, hs⟩ := Option.bind_eq_some_iff.mp hs
    split at hs
    · rename_i hloop
      split_ifs at hs
      obtain ⟨u, hu, rfl⟩ := Option.map_eq_some_iff.mp hs
      exact .settle hw hloop hu
    · cases hs

/-! ## Terminated messages -/

/-- `processMessage` terminates message `m` only after the handler tried to process it on every one
of its deliveries. -/
def TriedBeforeTerm (m : ℕ) (s : Pool) : Prop :=
  ∀ q, s.stream m = some q → ∀ i, q.disposition i = some .term →
    ∀ j < defaultMaxDeliver, (j, true) ∈ s.checked m

/-- Every delivery of message `m` gets to a proxy that is not shutting down. Until `Handle` has made
its check, that proxy is not told to shut down and does not die, and the queue does not give the
message out again. -/
def Unhindered (m : ℕ) (s : Pool) : PoolAct → Prop
  | .fetch p m' => m' = m → (∀ w ∈ s.workers p, w.shuttingDown = false) ∧
    ∀ q ∈ s.stream m, ∀ i < q.lease.attempts.length,
      q.lease.attempts[i]? = some .running → i ∈ (s.checked m).map Prod.fst
  | .miss m' => m' ≠ m
  | .shutdown p | .die p => ∀ w ∈ s.workers p, w.loop.awaits m = false
  | _ => True

instance (m : ℕ) (s : Pool) : (a : PoolAct) → Decidable (Unhindered m s a)
  | .fetch p m' => inferInstanceAs (Decidable (m' = m → (∀ w ∈ s.workers p, _) ∧
    ∀ q ∈ s.stream m, ∀ i < q.lease.attempts.length, _))
  | .miss m' => inferInstanceAs (Decidable (m' ≠ m))
  | .shutdown p | .die p => inferInstanceAs (Decidable (∀ w ∈ s.workers p, _))
  | .publish .. | .expire .. | .start .. | .cancel .. | .poll .. | .fetchEmpty .. | .enter ..
  | .settle .. => isTrue trivial

/-- Delivery `i` of message `m` was given out. -/
def Pool.Delivered (s : Pool) (m i : ℕ) : Prop :=
  ∃ q, s.stream m = some q ∧ i < q.lease.attempts.length

/-- The deliveries of message `m`: all were let in, but for the latest one as long as it waits for
the check, which it will pass. -/
structure PoolInv (m : ℕ) (s : Pool) : Prop where
  tried : ∀ q, s.stream m = some q → ∀ i < q.lease.attempts.length,
    (i, true) ∈ s.checked m ∨ q.lease.attempts[i]? = some .running ∧
      i + 1 = q.lease.attempts.length ∧ i ∉ (s.checked m).map Prod.fst
  delivered : ∀ i ∈ (s.checked m).map Prod.fst, s.Delivered m i
  holding : ∀ p w i, s.workers p = some w → w.loop = .holding m i →
    w.shuttingDown = false ∧ s.Delivered m i
  handling : ∀ p w i letIn, s.workers p = some w → w.loop = .handling m i letIn →
    i ∈ (s.checked m).map Prod.fst

theorem PoolInv.new (m : ℕ) : PoolInv m .new := by
  constructor <;> simp [Pool.new]

section Steps

variable {cfg : Config} {m : ℕ} {s t : Pool}

theorem queue_cases {a : Redelivery.Act} (h : s.queue cfg a = some t) :
    ∃ stream, Redelivery.step cfg s.stream a = some stream ∧ t = { s with stream } := by
  obtain ⟨stream, hs, rfl⟩ := Option.map_eq_some_iff.mp h
  exact ⟨stream, hs, rfl⟩

/-- What was given out stays so. -/
theorem Pool.Delivered.queue {i : ℕ} {a : Redelivery.Act} (h : s.Delivered m i)
    (hs : s.queue cfg a = some t) : t.Delivered m i := by
  obtain ⟨q, hq, hi⟩ := h
  obtain ⟨stream, hstep, rfl⟩ := queue_cases hs
  cases Redelivery.touched hstep m with
  | untouched same => exact ⟨q, same.trans hq, hi⟩
  | published new => simp [new] at hq
  | delivered _ hq₀ hq' attempts | kept hq₀ hq' attempts | ended _ hq₀ hq' attempts =>
    obtain rfl := Option.some.inj (hq.symm.trans hq₀)
    refine ⟨_, hq', ?_⟩
    simp only [attempts, List.length_append, List.length_set]
    omega

/-- A step of one proxy that concerns neither the queue nor a check. -/
theorem PoolInv.setWorker (h : PoolInv m s) {p : ℕ} {w : Worker}
    (holding : ∀ i, w.loop = .holding m i → w.shuttingDown = false ∧ s.Delivered m i)
    (handling : ∀ i letIn, w.loop = .handling m i letIn → i ∈ (s.checked m).map Prod.fst) :
    PoolInv m (s.setWorker p w) := by
  refine ⟨h.tried, h.delivered, ?_, ?_⟩
  · intro q v i hq
    simp only [Pool.setWorker, Function.update_apply] at hq
    split_ifs at hq
    · cases hq
      exact holding i
    · exact h.holding q v i hq
  · intro q v i letIn hq
    simp only [Pool.setWorker, Function.update_apply] at hq
    split_ifs at hq
    · cases hq
      exact handling i letIn
    · exact h.handling q v i letIn hq

/-- A proxy is left with nothing in hand. -/
theorem PoolInv.release (h : PoolInv m s) {p : ℕ} {w : Worker}
    (free : w.loop = .idle ∨ w.loop = .fetching ∨ w.loop = .stopped) :
    PoolInv m (s.setWorker p w) := by
  refine h.setWorker ?_ ?_
  · intro i hw
    rcases free with e | e | e <;> simp [e] at hw
  · intro i letIn hw
    rcases free with e | e | e <;> simp [e] at hw

/-- A step of the queue. An attempt ends after its check, and the message is given out when all
attempts in progress have been checked. -/
theorem PoolInv.queue (h : PoolInv m s) {a : Redelivery.Act} (hs : s.queue cfg a = some t)
    (ends : ∀ i, a.ends = some (m, i) → i ∈ (s.checked m).map Prod.fst)
    (inTurn : a = .deliver m → ∀ q ∈ s.stream m, ∀ i < q.lease.attempts.length,
      q.lease.attempts[i]? = some .running → i ∈ (s.checked m).map Prod.fst) : PoolInv m t := by
  obtain ⟨stream, hstep, rfl⟩ := queue_cases hs
  refine ⟨?_, fun i hi => (h.delivered i hi).queue hs,
    fun p w i hp hw => ⟨(h.holding p w i hp hw).1, (h.holding p w i hp hw).2.queue hs⟩, h.handling⟩
  intro q hq i hi
  cases Redelivery.touched hstep m with
  | untouched same => exact h.tried q (same.symm.trans hq) i hi
  | published new hq' none =>
    obtain rfl := Option.some.inj (hq.symm.trans hq')
    simp [none] at hi
  | @delivered q₀ _ act hq₀ hq' attempts =>
    obtain rfl := Option.some.inj (hq.symm.trans hq')
    rw [attempts] at hi ⊢
    by_cases old : i < q₀.lease.attempts.length
    · rcases h.tried q₀ hq₀ i old with letIn | ⟨running, -, unchecked⟩
      · exact .inl letIn
      · exact absurd (inTurn act q₀ hq₀ i old running) unchecked
    · obtain rfl : i = q₀.lease.attempts.length := by simp at hi; omega
      refine .inr ⟨by simp, by simp, fun checked => ?_⟩
      obtain ⟨q₁, hq₁, less⟩ := h.delivered _ checked
      obtain rfl := Option.some.inj (hq₀.symm.trans hq₁)
      exact lt_irrefl _ less
  | @kept q₀ _ hq₀ hq' attempts =>
    obtain rfl := Option.some.inj (hq.symm.trans hq')
    rw [attempts] at hi ⊢
    exact h.tried q₀ hq₀ i hi
  | @ended q₀ _ j b act hq₀ hq' attempts =>
    obtain rfl := Option.some.inj (hq.symm.trans hq')
    rw [attempts, List.length_set] at hi ⊢
    refine (h.tried q₀ hq₀ i hi).imp_right ?_
    rintro ⟨running, latest, unchecked⟩
    have hji : j ≠ i := by
      rintro rfl
      exact unchecked (ends j act)
    exact ⟨by rw [List.getElem?_set_ne hji, running], latest, unchecked⟩

/-- `Handle` lets a delivery in. -/
theorem PoolInv.check (h : PoolInv m s) {i : ℕ} (given : s.Delivered m i) :
    PoolInv m (s.check m i true) := by
  have checked : (s.check m i true).checked m = s.checked m ++ [(i, true)] := by simp [Pool.check]
  refine ⟨?_, ?_, h.holding, ?_⟩
  · intro q hq j hj
    rw [checked]
    by_cases hji : j = i
    · exact .inl (by simp [hji])
    · rcases h.tried q hq j hj with letIn | ⟨running, latest, unchecked⟩
      · exact .inl (List.mem_append_left _ letIn)
      · exact .inr ⟨running, latest, by simpa [hji] using unchecked⟩
  · intro j hj
    rw [checked, List.map_append, List.mem_append] at hj
    rcases hj with hj | hj
    · exact h.delivered j hj
    · obtain rfl : j = i := by simpa using hj
      exact given
  · intro p w j letIn hp hw
    rw [checked, List.map_append]
    exact List.mem_append_left _ (h.handling p w j letIn hp hw)

/-- The check of another message. -/
theorem PoolInv.check_other (h : PoolInv m s) {m' i : ℕ} {letIn : Bool} (hm : m ≠ m') :
    PoolInv m (s.check m' i letIn) := by
  have checked : (s.check m' i letIn).checked m = s.checked m := by simp [Pool.check, hm]
  refine ⟨?_, ?_, h.holding, ?_⟩ <;> rw [checked]
  · exact h.tried
  · exact h.delivered
  · exact h.handling

theorem PoolInv.enter (h : PoolInv m s) {p m' i : ℕ} {w : Worker} (hw : s.workers p = some w)
    (hloop : w.loop = .holding m' i) :
    PoolInv m ((s.check m' i (!w.shuttingDown)).setWorker p
      { w with loop := .handling m' i (!w.shuttingDown) }) := by
  by_cases hm : m = m'
  · subst hm
    obtain ⟨running, given⟩ := h.holding p w i hw hloop
    rw [running]
    refine (h.check given).setWorker (by simp) ?_
    rintro j letIn ⟨⟩
    simp [Pool.check]
  · refine (h.check_other hm).setWorker (by simp) ?_
    rintro j letIn ⟨⟩
    exact absurd rfl hm

theorem PoolInv.fetch (h : PoolInv m s) {p m' : ℕ} {w : Worker} {q : Redelivery.Request}
    (hw : s.workers p = some w) (hq : s.stream m' = some q)
    (hs : s.queue cfg (.deliver m') = some t) (clear : Unhindered m s (.fetch p m')) :
    PoolInv m (t.setWorker p { w with loop := .holding m' q.lease.attempts.length }) := by
  have inTurn : PoolInv m t := by
    refine h.queue hs (by simp [Redelivery.Act.ends]) ?_
    rintro ⟨⟩
    exact (clear rfl).2
  refine inTurn.setWorker ?_ (by simp)
  rintro i ⟨⟩
  refine ⟨(clear rfl).1 w hw, ?_⟩
  obtain ⟨stream, hstep, rfl⟩ := queue_cases hs
  obtain ⟨q₀, lease, hq₀, hl, rfl⟩ := Redelivery.lease_cases hstep
  obtain rfl := Option.some.inj (hq.symm.trans hq₀)
  obtain ⟨-, attempts⟩ | ⟨impossible, -⟩ | ⟨i, b, impossible, -⟩ := Lease.attempts_of_step hl
  · exact ⟨_, Function.update_self .., by simp [attempts]⟩
  · cases impossible
  · cases impossible

theorem PoolInv.step {a : PoolAct} (h : PoolInv m s) (clear : Unhindered m s a)
    (hs : poolStep cfg s a = some t) : PoolInv m t := by
  cases poolStep_move hs with
  | publish queue => exact h.queue queue (by simp [Redelivery.Act.ends]) (by simp)
  | expire queue => exact h.queue queue (by simp [Redelivery.Act.ends]) (by simp)
  | miss hq given lost =>
    have other : PoolInv m _ := h.queue given (by simp [Redelivery.Act.ends]) (by
      rintro ⟨⟩
      exact absurd rfl clear)
    refine other.queue lost ?_ (by simp)
    rintro i ⟨⟩
    exact absurd rfl clear
  | release free => exact h.release free
  | @cancel p w hw =>
    exact h.setWorker (fun i => h.holding p w i hw) fun i letIn => h.handling p w i letIn hw
  | @shutdown p w hw =>
    refine h.setWorker ?_ fun i letIn => h.handling p w i letIn hw
    intro i hloop
    have unheld := clear w hw
    simp only at hloop
    simp [hloop, Loop.awaits] at unheld
  | @die p m' i w u hw inHand queue =>
    refine (h.queue queue ?_ (by simp)).release (by simp)
    rintro _ ⟨⟩
    rcases inHand with hloop | ⟨letIn, hloop⟩
    · have unheld := clear w hw
      simp [hloop, Loop.awaits] at unheld
    · exact h.handling p w i letIn hw hloop
  | fetch hw hq queue => exact h.fetch hw hq queue clear
  | enter hw hloop => exact h.enter hw hloop
  | @settle p m' i w letIn heard es u hw hloop queue =>
    refine (h.queue queue ?_ (by simp)).release (by simp)
    rintro _ ⟨⟩
    exact h.handling p w i letIn hw hloop

theorem stream_queue {a : Redelivery.Act} (hs : s.queue cfg a = some t) :
    run (Redelivery.step cfg) s.stream [a] = some t.stream := by
  obtain ⟨stream, hstep, rfl⟩ := queue_cases hs
  exact run_cons.mpr ⟨stream, hstep, rfl⟩

/-- Every step of a pool is some steps of its queue. -/
theorem stream_step {a : PoolAct} (hs : poolStep cfg s a = some t) :
    ∃ steps, run (Redelivery.step cfg) s.stream steps = some t.stream := by
  cases poolStep_move hs with
  | publish queue | expire queue | die _ _ queue | fetch _ _ queue | settle _ _ queue =>
    have stepped := stream_queue queue
    exact ⟨_, stepped⟩
  | miss _ given lost =>
    exact ⟨_, run_append.mpr ⟨_, stream_queue given, stream_queue lost⟩⟩
  | release | cancel | shutdown | enter => exact ⟨[], rfl⟩

/-- The queue of a pool behaves like the queue on its own. -/
theorem stream_run {acts : List PoolAct} (h : run (poolStep cfg) .new acts = some s) :
    ∃ steps, run (Redelivery.step cfg) (fun _ => none) steps = some s.stream :=
  run_refines (fun _ => True) (fun _ _ _ _ hs => ⟨trivial, stream_step hs⟩) h trivial

end Steps

/-- In every run in which no delivery of message `m` is disturbed before the check of `Handle`, the
message is terminated only after the handler tried each of its deliveries. -/
theorem term_only_after_tries {cfg : Config} {m : ℕ} {acts : List PoolAct} {s : Pool}
    (h : run (poolStep cfg) .new acts = some s)
    (clear : Meets (poolStep cfg) (Unhindered m) .new acts) : TriedBeforeTerm m s := by
  have inv := clear.invariant (PoolInv m) (fun _ _ _ inv ok hs => inv.step ok hs) h (.new m)
  intro q hq i settled j hj
  obtain ⟨es, result, heard, returned, term⟩ := Redelivery.Request.disposition_eq_some.mp settled
  obtain ⟨steps, hsteps⟩ := stream_run h
  have bounded := (Redelivery.Kept.run hsteps m q hq).books.bounded
  obtain ⟨last, -⟩ := processMessage_eq_term.mp term
  obtain ⟨hi, -⟩ := List.getElem?_eq_some_iff.mp returned
  rcases inv.tried q hq j (by omega) with letIn | ⟨running, latest, -⟩
  · exact letIn
  · -- The latest delivery is the one that was settled.
    obtain rfl : i = j := by omega
    rw [returned] at running
    cases running

/-- The first proxy dies in `Handle`. The second attempt fails and so does the third, during which
the shutdown of its proxy starts. -/
def threeFailures : List PoolAct := [
  .publish 0 (.ok question), .start 0, .start 1,
  .poll 0, .fetch 0 0, .enter 0, .die 0, .expire 0,
  .poll 1, .fetch 1 0, .enter 1, .settle 1 failedTrace true,
  .start 0, .poll 0, .fetch 0 0, .enter 0, .cancel 0, .shutdown 0, .settle 0 failedTrace true]

theorem term_only_after_tries_threeFailures :
    ∃ s q, run (poolStep {}) .new threeFailures = some s ∧ s.stream 0 = some q ∧
      q.disposition 2 = some .term ∧ ∀ j < 3, (j, true) ∈ s.checked 0 := by
  have observed : ((run (poolStep {}) .new threeFailures).bind fun s =>
      (s.stream 0).map (·.disposition 2)) = some (some .term) := by decide +kernel
  obtain ⟨s, hs, observed⟩ := Option.bind_eq_some_iff.mp observed
  obtain ⟨q, hq, term⟩ := Option.map_eq_some_iff.mp observed
  have clear : Meets (poolStep {}) (Unhindered 0) .new threeFailures := by decide +kernel
  exact ⟨s, q, hs, hq, term, term_only_after_tries hs clear q hq 2 term⟩

/-- One turn of the loop of proxy 0 with message 0, which fails. -/
def failedTurn : List PoolAct := [.poll 0, .fetch 0 0, .enter 0, .settle 0 failedTrace true]

/-- Two deliveries fail. The third is fetched, then the shutdown starts. -/
def shutdownOnLast : List PoolAct :=
  ([.publish 0 (.ok question), .start 0] : List PoolAct) ++ failedTurn ++ failedTurn ++
    ([.poll 0, .fetch 0 0, .cancel 0, .shutdown 0, .enter 0,
      .settle 0 rejectedTrace true] : List PoolAct)

/-- The rejected delivery terminates the message. -/
theorem shutdown_terminates :
    ∃ s q, run (poolStep {}) .new shutdownOnLast = some s ∧ s.stream 0 = some q ∧
      q.disposition 2 = some .term ∧ s.checked 0 = [(0, true), (1, true), (2, false)] ∧
      ¬ TriedBeforeTerm 0 s := by
  have observed : ((run (poolStep {}) .new shutdownOnLast).bind fun s =>
      (s.stream 0).map fun q => (q.disposition 2, s.checked 0)) =
      some (some .term, [(0, true), (1, true), (2, false)]) := by decide +kernel
  obtain ⟨s, hs, observed⟩ := Option.bind_eq_some_iff.mp observed
  obtain ⟨q, hq, e⟩ := Option.map_eq_some_iff.mp observed
  obtain ⟨term, checked⟩ := Prod.mk.inj e
  refine ⟨s, q, hs, hq, term, checked, fun safe => ?_⟩
  have third := safe q hq 2 term 2 (by decide)
  rw [checked] at third
  exact absurd third (by decide)

end Daedalus.Proxy
