import Daedalus.Orchestrator.Safety
import Daedalus.Scheduler.Safety

/-!
# Schedule calls over one dispatcher and one collector

Any number of `Schedule` calls share a `Dispatcher` and a `ResultCollector`. Each call is a run of
the scheduler, its `Dispatch` calls run the dispatcher, and its `WaitFor` calls are calls of the
collector. The requests handed to the publisher are numbered in `log`; whoever works on them
publishes results and statuses for the task they name, at any time and in any number, and these
messages carry the number of the request they answer.
-/
namespace Daedalus.Pipeline

open Foundation A2A Dispatch Orchestrator Scheduler

/-- One `Schedule` call. -/
structure Session where
  req : ScheduleRequest
  state : State
  /-- What the running `Dispatch` of a task is about to return. -/
  answers : String → Option (Except GoError String)
  /-- The `WaitFor` call made for a task. -/
  waits : String → Option ℕ

/-- The `Dispatch` of a task has its answer. -/
def Session.answer (s : Session) (id : String) (result : Except GoError String) : Session :=
  { s with answers := Function.update s.answers id (some result) }

/-- The goroutine of a task has entered the `WaitFor` call `c`. -/
def Session.wait (s : Session) (id : String) (c : ℕ) : Session :=
  { s with waits := Function.update s.waits id (some c) }

structure World where
  sessions : List Session
  collector : Collector
  /-- The session and the task of each published request. -/
  log : List (ℕ × String)

def World.new : World where
  sessions := []
  collector := .new
  log := []

def World.setSession (w : World) (k : ℕ) (s : Session) : World :=
  { w with sessions := w.sessions.set k s }

inductive Act where
  /-- A `Schedule` call whose request passes validation. -/
  | schedule (req : ScheduleRequest) (order : req.MapOrder)
  /-- A step of a call that involves nobody else. -/
  | advance (k : ℕ) (a : Scheduler.Act)
  /-- The `Dispatch` of a task routes and publishes. -/
  | publish (k : ℕ) (id : String) (env : DispatchEnv)
  | dispatchReturns (k : ℕ) (id : String)
  | waitFor (k : ℕ) (id : String)
  /-- The `WaitFor` of a task sees the cancelled context of its call. -/
  | ctxDone (k : ℕ) (id : String)
  | waitReturns (k : ℕ) (id : String)
  /-- A step of the collector that needs neither a message nor a new call. -/
  | collect (a : Orchestrator.Act)
  /-- A result published for a request reaches the collector, -/
  | result (number : ℕ) (task : Task)
  /-- or a status. -/
  | status (number : ℕ) (status : TaskStatus)

/-- The steps a `Schedule` call makes on its own. -/
def Alone : Scheduler.Act → Bool
  | .dispatchReturns _ _ => false
  | .waitReturns _ _ => false
  | _ => true

/-- The steps the collector makes on its own. -/
def Internal : Orchestrator.Act → Bool
  | .receive _ => true
  | .cleanUp _ => true
  | .storeStatus _ => true
  | _ => false

/-- `Dispatch` as the scheduler calls it: the ID of the specification is the task ID. Only tasks
of the request are dispatched, so the lookup succeeds. -/
def dispatchTask (req : ScheduleRequest) (env : DispatchEnv) (id : String) :
    List (String × SendMessageRequest) × Except GoError (String × String) :=
  match req.tasks.find? (·.id = id) with
  | some task => dispatch env { task.toTaskSpec with id := id } req.contextID
  | none => ([], .error (.new ""))

def resultMsg (number : ℕ) (id : String) (task : Task) : Msg Task :=
  ⟨"agent.results." ++ id, some task, number⟩

def statusMsg (number : ℕ) (id : String) (status : TaskStatus) : Msg TaskStatus :=
  ⟨"agent.status." ++ id, some status, number⟩

def step (w : World) : Act → Option World
  | .schedule req order =>
    match req.validate order with
    | .ok d => some { w with
        sessions := w.sessions ++ [⟨req, start d, fun _ => none, fun _ => none⟩] }
    | .error _ => none
  | .advance k a =>
    w.sessions[k]?.bind fun s =>
      if Alone a then
        (Scheduler.step s.req s.state a).map fun state => w.setSession k { s with state }
      else none
  | .publish k id env =>
    w.sessions[k]?.bind fun s =>
      match s.state.pc, s.answers id with
      | .dispatching _ slots, none =>
        match slots id with
        | .calling =>
          let (published, result) := dispatchTask s.req env id
          some { w.setSession k (s.answer id (result.map Prod.fst)) with
            log := w.log ++ published.map fun _ => (k, id) }
        | _ => none
      | _, _ => none
  | .dispatchReturns k id =>
    w.sessions[k]?.bind fun s => (s.answers id).bind fun result =>
      (Scheduler.step s.req s.state (.dispatchReturns id result)).map fun state =>
        w.setSession k { s with state }
  | .waitFor k id =>
    w.sessions[k]?.bind fun s =>
      match s.state.pc, s.waits id with
      | .waiting pending _, none =>
        (pending.find? (·.1 = id)).map fun entry =>
          { w.setSession k (s.wait id w.collector.next) with
            collector := w.collector.waitFor entry.2 }
      | _, _ => none
  | .ctxDone k id =>
    w.sessions[k]?.bind fun s => s.state.ctxErr.bind fun err => (s.waits id).bind fun c =>
      (Orchestrator.step w.collector (.ctxDone c err)).map fun collector => { w with collector }
  | .waitReturns k id =>
    w.sessions[k]?.bind fun s => (s.waits id).bind fun c =>
      match w.collector.calls c with
      | some ⟨_, .returned result⟩ =>
        (Scheduler.step s.req s.state (.waitReturns id result)).map fun state =>
          w.setSession k { s with state }
      | _ => none
  | .collect a =>
    if Internal a then
      (Orchestrator.step w.collector a).map fun collector => { w with collector }
    else none
  | .result number task =>
    w.log[number]?.bind fun entry =>
      if task.id = entry.2 then
        (Orchestrator.step w.collector (.handleResult (resultMsg number entry.2 task))).map
          fun collector => { w with collector }
      else none
  | .status number status =>
    w.log[number]?.bind fun entry =>
      (Orchestrator.step w.collector (.handleStatus (statusMsg number entry.2 status))).map
        fun collector => { w with collector }

/-! ## What a step can do -/

section Steps

variable {w v : World}

/-- A step starts a session, changes one session, or changes the collector. -/
theorem step_cases {a : Act} (h : step w a = some v) :
    (∃ req order d, a = .schedule req order ∧ req.validate order = .ok d ∧
      v = { w with sessions := w.sessions ++ [⟨req, start d, fun _ => none, fun _ => none⟩] }) ∨
    (∃ k b s state, a = .advance k b ∧ w.sessions[k]? = some s ∧ Alone b ∧
      Scheduler.step s.req s.state b = some state ∧ v = w.setSession k { s with state }) ∨
    (∃ k id env s, a = .publish k id env ∧ w.sessions[k]? = some s ∧
      v = { w.setSession k (s.answer id ((dispatchTask s.req env id).2.map Prod.fst)) with
        log := w.log ++ (dispatchTask s.req env id).1.map fun _ => (k, id) }) ∨
    (∃ k id s result state, a = .dispatchReturns k id ∧ w.sessions[k]? = some s ∧
      s.answers id = some result ∧
      Scheduler.step s.req s.state (.dispatchReturns id result) = some state ∧
      v = w.setSession k { s with state }) ∨
    (∃ k id s pending waitCh dispID, a = .waitFor k id ∧ w.sessions[k]? = some s ∧
      s.state.pc = .waiting pending waitCh ∧ (id, dispID) ∈ pending ∧
      v = { w.setSession k (s.wait id w.collector.next) with
        collector := w.collector.waitFor dispID }) ∨
    (∃ k id s c id' result state, a = .waitReturns k id ∧ w.sessions[k]? = some s ∧
      s.waits id = some c ∧ w.collector.calls c = some ⟨id', .returned result⟩ ∧
      Scheduler.step s.req s.state (.waitReturns id result) = some state ∧
      v = w.setSession k { s with state }) ∨
    (∃ b collector, Orchestrator.step w.collector b = some collector ∧
      v = { w with collector } ∧
      ((∃ k id, a = .ctxDone k id) ∧ b.builds = none ∨ a = .collect b ∧ b.builds = none ∨
        (∃ number entry task, a = .result number task ∧ w.log[number]? = some entry ∧
          task.id = entry.2 ∧ b = .handleResult (resultMsg number entry.2 task)) ∨
        ∃ number entry status, a = .status number status ∧ w.log[number]? = some entry ∧
          b = .handleStatus (statusMsg number entry.2 status))) := by
  cases a with
  | schedule req order =>
    left
    simp only [step] at h
    split at h
    · rename_i d hd
      cases h
      exact ⟨req, order, d, rfl, hd, rfl⟩
    · cases h
  | advance k b =>
    right; left
    simp only [step, Option.bind_eq_some_iff] at h
    obtain ⟨s, hs, h⟩ := h
    split_ifs at h with alone
    obtain ⟨state, hstate, rfl⟩ := Option.map_eq_some_iff.mp h
    exact ⟨k, b, s, state, rfl, hs, alone, hstate, rfl⟩
  | publish k id env =>
    right; right; left
    simp only [step, Option.bind_eq_some_iff] at h
    obtain ⟨s, hs, h⟩ := h
    split at h
    · split at h
      · cases h
        exact ⟨k, id, env, s, rfl, hs, rfl⟩
      · cases h
    · cases h
  | dispatchReturns k id =>
    right; right; right; left
    simp only [step, Option.bind_eq_some_iff, Option.map_eq_some_iff] at h
    obtain ⟨s, hs, result, hresult, state, hstate, rfl⟩ := h
    exact ⟨k, id, s, result, state, rfl, hs, hresult, hstate, rfl⟩
  | waitFor k id =>
    right; right; right; right; left
    simp only [step, Option.bind_eq_some_iff] at h
    obtain ⟨s, hs, h⟩ := h
    split at h
    · rename_i pending waitCh hpc _
      obtain ⟨entry, hfind, rfl⟩ := Option.map_eq_some_iff.mp h
      obtain ⟨dispID, rfl, hmem⟩ := mem_of_find?_fst hfind
      exact ⟨k, id, s, pending, waitCh, dispID, rfl, hs, hpc, hmem, rfl⟩
    · cases h
  | waitReturns k id =>
    right; right; right; right; right; left
    simp only [step, Option.bind_eq_some_iff] at h
    obtain ⟨s, hs, c, hc, h⟩ := h
    split at h
    · rename_i id' result hcall
      obtain ⟨state, hstate, rfl⟩ := Option.map_eq_some_iff.mp h
      exact ⟨k, id, s, c, id', result, state, rfl, hs, hc, hcall, hstate, rfl⟩
    · cases h
  | ctxDone k id =>
    right; right; right; right; right; right
    simp only [step, Option.bind_eq_some_iff, Option.map_eq_some_iff] at h
    obtain ⟨s, hs, err, herr, c, hc, collector, hcollector, rfl⟩ := h
    exact ⟨_, collector, hcollector, rfl, .inl ⟨⟨k, id, rfl⟩, rfl⟩⟩
  | collect b =>
    right; right; right; right; right; right
    simp only [step] at h
    split_ifs at h with internal
    obtain ⟨collector, hcollector, rfl⟩ := Option.map_eq_some_iff.mp h
    refine ⟨b, collector, hcollector, rfl, .inr (.inl ⟨rfl, ?_⟩)⟩
    cases b <;> simp_all [Internal, Orchestrator.Act.builds]
  | result number task =>
    right; right; right; right; right; right
    simp only [step, Option.bind_eq_some_iff] at h
    obtain ⟨entry, hentry, h⟩ := h
    split_ifs at h with hid
    obtain ⟨collector, hcollector, rfl⟩ := Option.map_eq_some_iff.mp h
    exact ⟨_, collector, hcollector, rfl,
      .inr (.inr (.inl ⟨number, entry, task, rfl, hentry, hid, rfl⟩))⟩
  | status number status =>
    right; right; right; right; right; right
    simp only [step, Option.bind_eq_some_iff, Option.map_eq_some_iff] at h
    obtain ⟨entry, hentry, collector, hcollector, rfl⟩ := h
    exact ⟨_, collector, hcollector, rfl,
      .inr (.inr (.inr ⟨number, entry, status, rfl, hentry, rfl⟩))⟩

end Steps

end Daedalus.Pipeline
