import Daedalus.Orchestrator.Collector
import Daedalus.Scheduler.Request

/-!
# The main loop of the scheduler

The second half of `Scheduler.Schedule`, from the validated graph to the returned result. Only the
main goroutine touches the graph, the skip map and the outcomes, so its code between two
synchronisation points is one step. The goroutines of a wave move on their own: each calls
`Dispatch`, stores what it returned, and, once the main goroutine has spawned it, waits for the
result and sends it on `waitCh`. The context can be cancelled at any time.

What the dispatcher and the waiter answer is part of the action.
-/
namespace Daedalus.Scheduler

open Foundation A2A Orchestrator

/-- The dispatch result with scheduling metadata. -/
structure TaskOutcome where
  taskID : String
  status : String
  error : Option GoError := none
  batch : ℤ
  deriving DecidableEq, Repr

/-- The status of a task that returned a result in the given state. -/
def outcomeStatus : TaskState → String
  | .completed => "completed"
  | .failed => "failed"
  | .canceled => "canceled"
  | state => state.name

/-- A dispatch goroutine of the current wave: not started, inside `Dispatch`, or done with what
`Dispatch` returned. -/
inductive Slot where
  | spawned
  | calling
  | returned (result : Except GoError String)

structure WaitResult where
  specID : String
  result : Except GoError TaskResult

/-- The status recorded for what `WaitFor` returned. -/
def waitStatus : Except GoError TaskResult → String
  | .error err => if err.isCanceled then "canceled" else "failed"
  | .ok result => outcomeStatus result.status

/-- Where the main goroutine is. -/
inductive PC where
  /-- At the head of the loop. -/
  | head
  /-- In `dispWg.Wait()`. The slots are keyed by task: a wave has no duplicates. -/
  | dispatching (toDispatch : List String) (slots : String → Slot)
  /-- Receiving from `waitCh`. `pending` are the goroutines still in `WaitFor`, each a task with
  its dispatch ID. -/
  | waiting (pending : List (String × String)) (waitCh : List WaitResult)
  /-- Past the loop. -/
  | exit
  | returned (err : Option CtxErr)

/-- The error a call has returned. -/
def PC.result : PC → Option (Option CtxErr)
  | .returned err => some err
  | _ => none

theorem PC.result_eq_some {pc : PC} {err : Option CtxErr} :
    pc.result = some err ↔ pc = .returned err := by
  cases pc <;> simp [PC.result]

/-- The local variables of a `Schedule` call, with the state of its context. -/
structure State where
  d : DAG
  outcomes : String → Option TaskOutcome
  executionOrder : List (List String)
  skip : String → Bool
  batchNum : ℕ
  ctxErr : Option CtxErr
  pc : PC

/-- The state in which the loop starts on a validated graph. -/
def start (d : DAG) : State where
  d := d
  outcomes _ := none
  executionOrder := []
  skip _ := false
  batchNum := 0
  ctxErr := none
  pc := .head

/-- Set the skip flag of every given task. -/
def markSkip (skip : String → Bool) (succs : List String) : String → Bool :=
  succs.foldl (fun skip succ => Function.update skip succ true) skip

/-- Record an outcome, complete the node and, when `cascade` is set, mark its dependents to be
skipped. The four places of the source that complete a node differ in these arguments only. -/
def settle (s : State) (id status : String) (error : Option GoError) (cascade : Bool) : State :=
  { s with
    outcomes := Function.update s.outcomes id
      (some { taskID := id, status, error, batch := s.batchNum })
    d := (s.d.complete id).1
    skip := if cascade then markSkip s.skip (s.d.dependents id) else s.skip }

/-- One ready node: skipped at once, or appended to the wave. -/
def partitionReady (acc : State × List String × Bool) (id : String) :
    State × List String × Bool :=
  if acc.1.skip id then (settle acc.1 id "skipped" none true, acc.2.1, true)
  else (acc.1, acc.2.1 ++ [id], acc.2.2)

/-- From the loop condition to the spawning of a wave, `continue` or the end of the loop. -/
def round (s : State) : State :=
  if s.d.remaining > 0 then
    let (s, toDispatch, skippedThisRound) := s.d.ready.foldl partitionReady (s, [], false)
    if toDispatch = [] then
      if skippedThisRound then s else { s with pc := .exit }
    else if s.ctxErr.isSome then { s with pc := .exit }
    else
      { s with
        executionOrder := s.executionOrder ++ [toDispatch]
        pc := .dispatching toDispatch fun _ => .spawned }
  else { s with pc := .exit }

/-- One task of the wave after `dispWg.Wait()`: a failed dispatch is recorded at once, a
successful one gets a goroutine that waits. -/
def spawnWait (slots : String → Slot) (acc : State × List (String × String)) (id : String) :
    State × List (String × String) :=
  match slots id with
  | .returned (.error err) => (settle acc.1 id "failed" (some err) true, acc.2)
  | .returned (.ok dispID) => (acc.1, acc.2 ++ [(id, dispID)])
  | _ => acc

def Slot.isReturned : Slot → Bool
  | .returned _ => true
  | _ => false

/-- Process one result received from `waitCh`. -/
def collect (s : State) (wr : WaitResult) : State :=
  match wr.result with
  | .error err =>
    settle s wr.specID (if err.isCanceled then "canceled" else "failed") (some err) true
  | .ok result =>
    let status := outcomeStatus result.status
    settle s wr.specID status none (status ≠ "completed")

/-- Tasks without an outcome are marked as canceled. -/
def fillCanceled (ids : List String) (outcomes : String → Option TaskOutcome) :
    String → Option TaskOutcome := fun id =>
  match outcomes id with
  | some o => some o
  | none => if id ∈ ids then some { taskID := id, status := "canceled", batch := -1 } else none

inductive Act where
  /-- The context is done. -/
  | cancel (err : CtxErr)
  | round
  /-- The goroutine of a task calls `Dispatch`. -/
  | callDispatch (id : String)
  | dispatchReturns (id : String) (result : Except GoError String)
  /-- `dispWg.Wait()` returns. -/
  | spawnWaits
  /-- The goroutine of a task returns from `WaitFor` and sends on `waitCh`. -/
  | waitReturns (id : String) (result : Except GoError TaskResult)
  /-- The main goroutine receives from `waitCh`. -/
  | receive
  /-- `waitCh` is closed and drained. -/
  | endWave
  | ret

def step (req : ScheduleRequest) (s : State) : Act → Option State
  | .cancel err =>
    match s.pc with
    | .returned _ => none
    | _ => if s.ctxErr.isNone then some { s with ctxErr := some err } else none
  | .round =>
    match s.pc with
    | .head => some (round s)
    | _ => none
  | .callDispatch id =>
    match s.pc with
    | .dispatching wave slots =>
      match slots id with
      | .spawned =>
        if id ∈ wave then
          some { s with pc := .dispatching wave (Function.update slots id .calling) }
        else none
      | _ => none
    | _ => none
  | .dispatchReturns id result =>
    match s.pc with
    | .dispatching wave slots =>
      match slots id with
      | .calling =>
        if id ∈ wave then
          some { s with pc := .dispatching wave (Function.update slots id (.returned result)) }
        else none
      | _ => none
    | _ => none
  | .spawnWaits =>
    match s.pc with
    | .dispatching wave slots =>
      if wave.all fun id => (slots id).isReturned then
        let (s, pending) := wave.foldl (spawnWait slots) (s, [])
        some { s with pc := .waiting pending [] }
      else none
    | _ => none
  | .waitReturns id result =>
    match s.pc with
    | .waiting pending waitCh =>
      match pending.find? (·.1 = id) with
      | some entry =>
        some { s with pc := .waiting (pending.erase entry) (waitCh ++ [⟨id, result⟩]) }
      | none => none
    | _ => none
  | .receive =>
    match s.pc with
    | .waiting pending (wr :: waitCh) =>
      some { collect s wr with pc := .waiting pending waitCh }
    | _ => none
  | .endWave =>
    match s.pc with
    | .waiting [] [] => some { s with pc := .head, batchNum := s.batchNum + 1 }
    | _ => none
  | .ret =>
    match s.pc with
    | .exit =>
      some { s with outcomes := fillCanceled req.ids s.outcomes, pc := .returned s.ctxErr }
    | _ => none

/-! ## What a step can do -/

section Steps

variable {req : ScheduleRequest} {s t : State}

@[simp] theorem markSkip_apply (skip : String → Bool) (succs : List String) (id : String) :
    markSkip skip succs id = (skip id || decide (id ∈ succs)) := by
  unfold markSkip
  induction succs generalizing skip with
  | nil => simp
  | cons succ succs ih =>
    rw [List.foldl_cons, ih, Function.update_apply]
    by_cases e : id = succ <;> simp [e]

@[simp] theorem settle_outcomes (s : State) (id status : String) (error : Option GoError)
    (cascade : Bool) :
    (settle s id status error cascade).outcomes =
      Function.update s.outcomes id
        (some { taskID := id, status, error, batch := s.batchNum }) := rfl

@[simp] theorem settle_d (s : State) (id status : String) (error : Option GoError)
    (cascade : Bool) :
    (settle s id status error cascade).d = (s.d.complete id).1 := rfl

theorem settle_skip (s : State) (id status : String) (error : Option GoError) (cascade : Bool)
    (a : String) :
    (settle s id status error cascade).skip a =
      (s.skip a || (cascade && decide (a ∈ s.d.edges id))) := by
  unfold settle DAG.dependents
  cases cascade <;> simp

/-- Whatever `WaitFor` returned, processing it settles the task, cascading unless it completed. -/
theorem collect_eq_settle (s : State) (wr : WaitResult) :
    ∃ error, collect s wr =
      settle s wr.specID (waitStatus wr.result) error (waitStatus wr.result ≠ "completed") := by
  unfold collect waitStatus
  cases wr.result with
  | error err =>
    have failed : (if err.isCanceled then "canceled" else "failed") ≠ "completed" := by
      split <;> decide
    exact ⟨some err, by simp [failed]⟩
  | ok result => exact ⟨none, rfl⟩

/-- The steps of a `Schedule` call, with the guards that enable them. -/
theorem step_cases {a : Act} (h : step req s a = some t) :
    (∃ err, a = .cancel err ∧ (∀ e, s.pc ≠ .returned e) ∧ s.ctxErr = none ∧
      t = { s with ctxErr := some err }) ∨
    (a = .round ∧ s.pc = .head ∧ t = round s) ∨
    (∃ id wave slots, a = .callDispatch id ∧ s.pc = .dispatching wave slots ∧
      slots id = .spawned ∧ id ∈ wave ∧
      t = { s with pc := .dispatching wave (Function.update slots id .calling) }) ∨
    (∃ id result wave slots, a = .dispatchReturns id result ∧ s.pc = .dispatching wave slots ∧
      slots id = .calling ∧ id ∈ wave ∧
      t = { s with pc := .dispatching wave (Function.update slots id (.returned result)) }) ∨
    (∃ wave slots, a = .spawnWaits ∧ s.pc = .dispatching wave slots ∧
      (∀ id ∈ wave, (slots id).isReturned) ∧
      t = { (wave.foldl (spawnWait slots) (s, [])).1 with
        pc := .waiting (wave.foldl (spawnWait slots) (s, [])).2 [] }) ∨
    (∃ id result dispID pending waitCh, a = .waitReturns id result ∧
      s.pc = .waiting pending waitCh ∧ (id, dispID) ∈ pending ∧
      t = { s with pc := .waiting (pending.erase (id, dispID)) (waitCh ++ [⟨id, result⟩]) }) ∨
    (∃ pending wr waitCh, a = .receive ∧ s.pc = .waiting pending (wr :: waitCh) ∧
      t = { collect s wr with pc := .waiting pending waitCh }) ∨
    (a = .endWave ∧ s.pc = .waiting [] [] ∧
      t = { s with pc := .head, batchNum := s.batchNum + 1 }) ∨
    (a = .ret ∧ s.pc = .exit ∧
      t = { s with outcomes := fillCanceled req.ids s.outcomes, pc := .returned s.ctxErr }) := by
  cases a with
  | cancel err =>
    left
    simp only [step] at h
    split at h
    · cases h
    · rename_i hpc
      split_ifs at h with hnone
      cases h
      exact ⟨err, rfl, hpc, by simpa using hnone, rfl⟩
  | round =>
    right; left
    simp only [step] at h
    split at h
    · rename_i hpc
      cases h
      exact ⟨rfl, hpc, rfl⟩
    · cases h
  | callDispatch id =>
    right; right; left
    simp only [step] at h
    split at h
    · rename_i wave slots hpc
      split at h
      · rename_i hslot
        split_ifs at h with hmem
        cases h
        exact ⟨id, wave, slots, rfl, hpc, hslot, hmem, rfl⟩
      · cases h
    · cases h
  | dispatchReturns id result =>
    right; right; right; left
    simp only [step] at h
    split at h
    · rename_i wave slots hpc
      split at h
      · rename_i hslot
        split_ifs at h with hmem
        cases h
        exact ⟨id, result, wave, slots, rfl, hpc, hslot, hmem, rfl⟩
      · cases h
    · cases h
  | spawnWaits =>
    right; right; right; right; left
    simp only [step] at h
    split at h
    · rename_i wave slots hpc
      split_ifs at h with hall
      cases h
      exact ⟨wave, slots, rfl, hpc, by simpa using hall, rfl⟩
    · cases h
  | waitReturns id result =>
    right; right; right; right; right; left
    simp only [step] at h
    split at h
    · rename_i pending waitCh hpc
      split at h
      · rename_i entry hfind
        cases h
        obtain ⟨dispID, rfl, hmem⟩ := mem_of_find?_fst hfind
        exact ⟨id, result, dispID, pending, waitCh, rfl, hpc, hmem, rfl⟩
      · cases h
    · cases h
  | receive =>
    right; right; right; right; right; right; left
    simp only [step] at h
    split at h
    · rename_i pending wr waitCh hpc
      cases h
      exact ⟨pending, wr, waitCh, rfl, hpc, rfl⟩
    · cases h
  | endWave =>
    right; right; right; right; right; right; right; left
    simp only [step] at h
    split at h
    · rename_i hpc
      cases h
      exact ⟨rfl, hpc, rfl⟩
    · cases h
  | ret =>
    right; right; right; right; right; right; right; right
    simp only [step] at h
    split at h
    · rename_i hpc
      cases h
      exact ⟨rfl, hpc, rfl⟩
    · cases h

end Steps

end Daedalus.Scheduler
