import Daedalus.Foundation.Run
import Daedalus.Basic

/-!
# The result collector

`internal/orchestrator/collector.go`. Two subscriptions feed results and statuses to the
collector, and any number of `WaitFor` calls wait for them. Each step below is one critical
section of the mutex, one channel operation or one `select` choice, so every interleaving of the
goroutines is a run. `handleStatus` releases the mutex between its check and `storeAndNotify`;
an invocation in that gap is kept in `checked`.
-/
namespace Daedalus.Orchestrator

open A2A Foundation

/-- The outcome of a task. The code passes pointers around; `origin` is auxiliary and says which
message the object was built from. No step reads it. -/
structure TaskResult where
  taskID : String
  status : TaskState
  task : Option Task := none
  origin : ℕ := 0
  deriving DecidableEq, Repr

/-- A NATS message by its subject and what its data decodes to, `none` when it does not. The
publication number is auxiliary. -/
structure Msg (α : Type) where
  subject : String
  data : Option α
  number : ℕ := 0
  deriving DecidableEq, Repr

/-- `strings.TrimPrefix`. -/
def extractSuffix (subject pre : String) : String :=
  if pre.toList.isPrefixOf subject.toList then
    String.ofList (subject.toList.drop pre.toList.length)
  else subject

@[simp] theorem extractSuffix_append (pre id : String) : extractSuffix (pre ++ id) pre = id := by
  simp [extractSuffix]

/-- The states that represent a final outcome. -/
def isTerminal : TaskState → Bool
  | .completed | .failed | .canceled | .rejected => true
  | _ => false

/-- What `handleResult` stores for a message: an ID inside the task is preferred over the subject
suffix. `none` when the message is dropped. -/
def receiveResult (msg : Msg Task) : Option TaskResult :=
  let taskID := extractSuffix msg.subject "agent.results."
  if taskID = "" then none
  else match msg.data with
    | none => none
    | some task => some
      { taskID := if task.id ≠ "" then task.id else taskID
        status := task.status.state
        task := some task
        origin := msg.number }

/-- The partial result `handleStatus` builds for a terminal status. -/
def receiveStatus (msg : Msg TaskStatus) : Option TaskResult :=
  let taskID := extractSuffix msg.subject "agent.status."
  if taskID = "" then none
  else match msg.data with
    | none => none
    | some status =>
      if isTerminal status.state then
        some { taskID, status := status.state, origin := msg.number }
      else none

section Messages

variable {tr : TaskResult}

theorem receiveResult_spec {msg : Msg Task} {task : Task} (hdata : msg.data = some task)
    (h : receiveResult msg = some tr) :
    tr.status = task.status.state ∧ tr.task = some task ∧ tr.origin = msg.number ∧
      tr.taskID = if task.id ≠ "" then task.id else extractSuffix msg.subject "agent.results." := by
  simp only [receiveResult, hdata] at h
  split_ifs at h with _ given
  · cases h
    exact ⟨rfl, rfl, rfl, (if_pos given).symm⟩
  · cases h
    exact ⟨rfl, rfl, rfl, (if_neg given).symm⟩

theorem receiveResult_full {msg : Msg Task} (h : receiveResult msg = some tr) :
    tr.task.isSome := by
  cases hdata : msg.data with
  | none => simp [receiveResult, hdata] at h
  | some task => simp [(receiveResult_spec hdata h).2.1]

theorem receiveStatus_spec {msg : Msg TaskStatus} {status : TaskStatus}
    (hdata : msg.data = some status) (h : receiveStatus msg = some tr) :
    isTerminal status.state ∧
      tr = ⟨extractSuffix msg.subject "agent.status.", status.state, none, msg.number⟩ := by
  simp only [receiveStatus, hdata] at h
  split_ifs at h with _ terminal
  cases h
  exact ⟨terminal, rfl⟩

end Messages

/-- Where a `WaitFor` call is: in its `select`, past `ctx.Done()` and about to clean up, or
returned. -/
inductive Phase where
  | blocked
  | canceled (err : CtxErr)
  | returned (result : Except GoError TaskResult)

structure Call where
  taskID : String
  phase : Phase

/-- The collector and the calls in progress. A waiter channel is named after the call that made
it; it has room for one result. -/
structure Collector where
  results : String → Option TaskResult
  waiters : String → Option (List ℕ)
  chan : ℕ → Option TaskResult
  calls : ℕ → Option Call
  next : ℕ
  checked : List TaskResult

/-- `NewResultCollector`. -/
def Collector.new : Collector where
  results _ := none
  waiters _ := none
  chan _ := none
  calls _ := none
  next := 0
  checked := []

/-- The non-blocking send of `storeAndNotify`. -/
def notify (tr : TaskResult) (chan : ℕ → Option TaskResult) (ch : ℕ) : ℕ → Option TaskResult :=
  if chan ch = none then Function.update chan ch (some tr) else chan

/-- Whether `storeAndNotify` keeps what is stored: only a full task is kept. -/
def keeps : Option TaskResult → Bool
  | some existing => existing.task.isSome
  | none => false

namespace Collector

def storeAndNotify (s : Collector) (tr : TaskResult) : Collector :=
  { s with
    results :=
      if keeps (s.results tr.taskID) then s.results
      else Function.update s.results tr.taskID (some tr)
    chan := ((s.waiters tr.taskID).getD []).foldl (notify tr) s.chan
    waiters := Function.update s.waiters tr.taskID none }

/-- The first critical section of `WaitFor`: return at once, or register a channel. -/
def waitFor (s : Collector) (taskID : String) : Collector :=
  match s.results taskID with
  | some r =>
    { s with
      calls := Function.update s.calls s.next (some ⟨taskID, .returned (.ok r)⟩)
      next := s.next + 1 }
  | none =>
    { s with
      waiters :=
        Function.update s.waiters taskID (some ((s.waiters taskID).getD [] ++ [s.next]))
      calls := Function.update s.calls s.next (some ⟨taskID, .blocked⟩)
      next := s.next + 1 }

/-- The clean-up of a cancelled `WaitFor`. -/
def removeWaiter (s : Collector) (taskID : String) (ch : ℕ) : Collector :=
  let updated := ((s.waiters taskID).getD []).filter (· ≠ ch)
  { s with
    waiters := Function.update s.waiters taskID (if updated = [] then none else some updated) }

def setPhase (s : Collector) (call : ℕ) (taskID : String) (phase : Phase) : Collector :=
  { s with calls := Function.update s.calls call (some ⟨taskID, phase⟩) }

end Collector

inductive Act where
  /-- A new `WaitFor` call enters. -/
  | waitFor (taskID : String)
  /-- A blocked call receives from its channel and returns. -/
  | receive (call : ℕ)
  /-- A blocked call takes the `ctx.Done()` case. -/
  | ctxDone (call : ℕ) (err : CtxErr)
  /-- A cancelled call cleans up and returns. -/
  | cleanUp (call : ℕ)
  | handleResult (msg : Msg Task)
  /-- `handleStatus` up to and including its already-done check. -/
  | handleStatus (msg : Msg TaskStatus)
  /-- The `storeAndNotify` of a `handleStatus` whose check found no result. -/
  | storeStatus (tr : TaskResult)

def step (s : Collector) : Act → Option Collector
  | .waitFor taskID => some (s.waitFor taskID)
  | .receive c =>
    match s.calls c, s.chan c with
    | some ⟨taskID, .blocked⟩, some r => some
      { s.setPhase c taskID (.returned (.ok r)) with chan := Function.update s.chan c none }
    | _, _ => none
  | .ctxDone c err =>
    match s.calls c with
    | some ⟨taskID, .blocked⟩ => some (s.setPhase c taskID (.canceled err))
    | _ => none
  | .cleanUp c =>
    match s.calls c with
    | some ⟨taskID, .canceled err⟩ => some <|
      (s.removeWaiter taskID c).setPhase c taskID
        (.returned (.error (.wrap ("collector: wait for task " ++ taskID) err.toError)))
    | _ => none
  | .handleResult msg =>
    match receiveResult msg with
    | some tr => some (s.storeAndNotify tr)
    | none => some s
  | .handleStatus msg =>
    match receiveStatus msg with
    | some tr =>
      if (s.results tr.taskID).isSome then some s
      else some { s with checked := s.checked ++ [tr] }
    | none => some s
  | .storeStatus tr =>
    if tr ∈ s.checked then
      some ({ s with checked := s.checked.erase tr }.storeAndNotify tr)
    else none

/-! ## What a step can do -/

section Steps

variable {s t : Collector} {c : ℕ} {id : String}

theorem foldl_notify (tr : TaskResult) (ws : List ℕ) (chan : ℕ → Option TaskResult) (c : ℕ) :
    ws.foldl (notify tr) chan c =
      if c ∈ ws ∧ chan c = none then some tr else chan c := by
  induction ws generalizing chan with
  | nil => simp
  | cons w ws ih =>
    rw [List.foldl_cons, ih]
    by_cases hw : chan w = none
    · by_cases e : c = w
      · subst e
        simp [notify, hw]
      · simp [notify, hw, e]
    · by_cases e : c = w
      · subst e
        simp [notify, hw]
      · simp [notify, hw, e]

/-- The channel contents after a notification: exactly the empty waiter channels are filled. -/
theorem storeAndNotify_chan (s : Collector) (tr : TaskResult) (c : ℕ) :
    (s.storeAndNotify tr).chan c =
      if c ∈ (s.waiters tr.taskID).getD [] ∧ s.chan c = none then some tr else s.chan c :=
  foldl_notify tr _ s.chan c

/-- Storing leaves a result for the task, and touches no other task. -/
theorem storeAndNotify_results (s : Collector) (tr : TaskResult) (id : String) :
    (s.storeAndNotify tr).results id =
      if id = tr.taskID then
        if keeps (s.results id) then s.results id else some tr
      else s.results id := by
  unfold Collector.storeAndNotify
  by_cases e : id = tr.taskID
  · subst e
    by_cases hk : keeps (s.results tr.taskID) <;> simp [hk]
  · by_cases hk : keeps (s.results tr.taskID) <;> simp [hk, e]

/-- A new call is a call for its task. -/
theorem waitFor_call (s : Collector) (id : String) :
    ∃ p, (s.waitFor id).calls s.next = some ⟨id, p⟩ := by
  unfold Collector.waitFor
  split
  · exact ⟨_, by simp; rfl⟩
  · exact ⟨_, by simp; rfl⟩

/-- Every step is a new call, the end of a call, a store or the entry into the gap of
`handleStatus`; anything else leaves the collector as it is. -/
theorem step_cases {a : Act} (h : step s a = some t) :
    (∃ id, a = .waitFor id ∧ t = s.waitFor id) ∨
    (∃ c id r, a = .receive c ∧ s.calls c = some ⟨id, .blocked⟩ ∧ s.chan c = some r ∧
      t = { s.setPhase c id (.returned (.ok r)) with chan := Function.update s.chan c none }) ∨
    (∃ c id err, a = .ctxDone c err ∧ s.calls c = some ⟨id, .blocked⟩ ∧
      t = s.setPhase c id (.canceled err)) ∨
    (∃ c id err, a = .cleanUp c ∧ s.calls c = some ⟨id, .canceled err⟩ ∧
      t = (s.removeWaiter id c).setPhase c id
        (.returned (.error (.wrap ("collector: wait for task " ++ id) err.toError)))) ∨
    (∃ msg tr, a = .handleResult msg ∧ receiveResult msg = some tr ∧ t = s.storeAndNotify tr) ∨
    (∃ msg tr, a = .handleStatus msg ∧ receiveStatus msg = some tr ∧ s.results tr.taskID = none ∧
      t = { s with checked := s.checked ++ [tr] }) ∨
    (∃ tr, a = .storeStatus tr ∧ tr ∈ s.checked ∧
      t = { s with checked := s.checked.erase tr }.storeAndNotify tr) ∨
    (t = s ∧ ((∃ msg, a = .handleResult msg) ∨ ∃ msg, a = .handleStatus msg)) := by
  cases a with
  | waitFor id =>
    cases h
    exact .inl ⟨id, rfl, rfl⟩
  | receive c =>
    simp only [step] at h
    split at h
    · rename_i id r hcall hchan
      cases h
      exact .inr (.inl ⟨c, id, r, rfl, hcall, hchan, rfl⟩)
    · cases h
  | ctxDone c err =>
    simp only [step] at h
    split at h
    · rename_i id hcall
      cases h
      exact .inr (.inr (.inl ⟨c, id, err, rfl, hcall, rfl⟩))
    · cases h
  | cleanUp c =>
    simp only [step] at h
    split at h
    · rename_i id err hcall
      cases h
      exact .inr (.inr (.inr (.inl ⟨c, id, err, rfl, hcall, rfl⟩)))
    · cases h
  | handleResult msg =>
    simp only [step] at h
    split at h
    · rename_i tr hr
      cases h
      exact .inr (.inr (.inr (.inr (.inl ⟨msg, tr, rfl, hr, rfl⟩))))
    · cases h
      exact .inr (.inr (.inr (.inr (.inr (.inr (.inr ⟨rfl, .inl ⟨msg, rfl⟩⟩))))))
  | handleStatus msg =>
    simp only [step] at h
    split at h
    · rename_i tr hr
      split_ifs at h with hdone
      · cases h
        exact .inr (.inr (.inr (.inr (.inr (.inr (.inr ⟨rfl, .inr ⟨msg, rfl⟩⟩))))))
      · cases h
        have hnone : s.results tr.taskID = none := by simpa using hdone
        exact .inr (.inr (.inr (.inr (.inr (.inl ⟨msg, tr, rfl, hr, hnone, rfl⟩)))))
    · cases h
      exact .inr (.inr (.inr (.inr (.inr (.inr (.inr ⟨rfl, .inr ⟨msg, rfl⟩⟩))))))
  | storeStatus tr =>
    simp only [step] at h
    split_ifs at h with hmem
    cases h
    exact .inr (.inr (.inr (.inr (.inr (.inr (.inl ⟨tr, rfl, hmem, rfl⟩))))))

end Steps

end Daedalus.Orchestrator
