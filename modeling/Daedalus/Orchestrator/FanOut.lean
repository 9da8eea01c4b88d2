import Daedalus.Dispatch.Dispatcher
import Daedalus.Foundation.Gather
import Daedalus.Orchestrator.Collector

/-!
# Fan-out

`internal/orchestrator/orchestrator.go` and `types.go`. `FanOut` starts one goroutine per task; each
calls `Dispatch` once and sends an indexed result to a buffered channel. Another goroutine waits for
the wait group and closes `done`; `FanOut` itself waits for `done` or for the context, then closes
the channel and puts what is in it into the slots of the result. Every step below is taken by one of
these goroutines, by the dispatcher or by whoever cancels the context.
-/
namespace Daedalus.Orchestrator.FanOut

open A2A Dispatch Foundation

/-! ## Requests and results -/

/-- Tasks for parallel dispatch. `Metadata` is never read. -/
structure FanOutRequest where
  tasks : List TaskSpec
  contextID : String := ""
  deriving DecidableEq, Repr

/-- The loop of `Validate`, from a position on. -/
def validateFrom : ℕ → List TaskSpec → Except GoError Unit
  | _, [] => .ok ()
  | i, t :: ts =>
    if t.skillID = "" then
      .error (.new ("orchestrator: task[" ++ toString i ++ "]: SkillID is required"))
    else if t.prompt = "" then
      .error (.new ("orchestrator: task[" ++ toString i ++ "]: Prompt is required"))
    else validateFrom (i + 1) ts

def FanOutRequest.validate (r : FanOutRequest) : Except GoError Unit :=
  if r.tasks.length = 0 then
    .error (.new "orchestrator: FanOutRequest must have at least one task")
  else validateFrom 0 r.tasks

/-- A `TaskResult` with the fields that the collector leaves alone. Times are numbers. -/
structure Slot extends TaskResult where
  skillID : String
  error : Option GoError
  dispatchedAt : ℕ
  completedAt : ℕ
  deriving DecidableEq, Repr

/-- What `make` fills the slice with. -/
def Slot.zero : Slot where
  taskID := ""
  status := .unknown "" (by decide)
  skillID := ""
  error := none
  dispatchedAt := 0
  completedAt := 0

/-- What the goroutine of task `s` sends when its `Dispatch` returned `outcome`. -/
def Slot.of (s : TaskSpec) (outcome : Except GoError (String × String))
    (dispatchedAt completedAt : ℕ) : Slot :=
  match outcome with
  | .error err =>
    { taskID := s.id, status := .failed, skillID := s.skillID, error := some err, dispatchedAt,
      completedAt }
  | .ok (taskID, _) =>
    { taskID, status := .submitted, skillID := s.skillID, error := none, dispatchedAt, completedAt }

/-- The slot tells the outcome of the `Dispatch` of task `s`, and is not what `make` left there. -/
structure Slot.Tells (slot : Slot) (s : TaskSpec) (outcome : Except GoError (String × String)) :
    Prop where
  skillID : slot.skillID = s.skillID
  submitted : ∀ taskID subject, outcome = .ok (taskID, subject) →
    slot.taskID = taskID ∧ slot.status = .submitted ∧ slot.error = none
  failed : ∀ err, outcome = .error err →
    slot.taskID = s.id ∧ slot.status = .failed ∧ slot.error = some err
  nonzero : slot ≠ .zero

theorem Slot.tells_of (s : TaskSpec) (outcome : Except GoError (String × String))
    (dispatchedAt completedAt : ℕ) :
    (Slot.of s outcome dispatchedAt completedAt).Tells s outcome := by
  cases outcome with
  | error err => constructor <;> simp [Slot.of, Slot.zero]
  | ok answer =>
    obtain ⟨taskID, subject⟩ := answer
    constructor <;> simp +contextual [Slot.of, Slot.zero]

structure FanOutResult where
  contextID : String
  tasks : List Slot
  startedAt : ℕ
  completedAt : ℕ := 0

/-- `hex` is what `rand.Read` filled the buffer with, in hexadecimal digits. -/
def generateContextID (hex : Except GoError String) : Except GoError String :=
  match hex with
  | .error err => .error err
  | .ok digits => .ok ("ctx-" ++ digits)

/-- `FanOut` up to the first goroutine: the request it goes on with. -/
def prepare (hex : Except GoError String) (req : FanOutRequest) : Except GoError FanOutRequest := do
  req.validate
  if req.contextID = "" then
    match generateContextID hex with
    | .error err => .error (.wrap "orchestrator: generate context ID" err)
    | .ok id => .ok { req with contextID := id }
  else .ok req

/-! ## The goroutines -/

/-- Where `FanOut` is: in the loop that starts the goroutines, in the `select`, waiting for `done`
after a cancellation, in the loop over the closed channel, or returned. -/
inductive PC where
  | launching
  | selecting
  | interrupted
  | collecting
  | returned (err : Option GoError)
  deriving DecidableEq, Repr

/-- `resultsCh` is closed. -/
def PC.closed : PC → Bool
  | .collecting | .returned _ => true
  | _ => false

/-- A goroutine is `inside` from `wg.Add` to `wg.Done`. In the call it keeps `DispatchedAt`. -/
structure State where
  pc : PC := .launching
  gather : Gather ℕ Slot := .new
  inside : ℕ → Bool := fun _ => false
  wg : ℕ := 0
  done : Bool := false
  ctxErr : Option CtxErr := none
  result : FanOutResult

def start (req : FanOutRequest) (now : ℕ) : State where
  result :=
    { contextID := req.contextID
      tasks := List.replicate req.tasks.length .zero
      startedAt := now }

inductive Act where
  /-- `wg.Add(1)` and `go`, for the next task. -/
  | launch
  /-- The loop is over; the goroutine that waits for the wait group is started. -/
  | launched
  | callDispatch (i now : ℕ)
  | dispatchReturns (i : ℕ) (outcome : Except GoError (String × String)) (now : ℕ)
  | send (i : ℕ)
  /-- The deferred `wg.Done()`. -/
  | finish (i : ℕ)
  /-- `wg.Wait()` returns and `done` is closed. -/
  | allDone
  | cancel (err : CtxErr)
  | selectDone
  | selectCtx
  | awaitDone
  /-- One value of the channel is put into its slot. -/
  | collect
  | ret (now : ℕ)

/-- The task whose `Dispatch` is called. -/
def Act.called : Act → Option ℕ
  | .callDispatch i _ => some i
  | _ => none

/-- The task whose `Dispatch` returns. -/
def Act.returned : Act → Option ℕ
  | .dispatchReturns i _ _ => some i
  | _ => none

/-- Everything but the cancellation. -/
def Act.own : Act → Bool
  | .cancel _ => false
  | _ => true

/-- `result.Tasks[r.idx] = r.result`. -/
def place (tasks : List Slot) (r : ℕ × Slot) : List Slot := tasks.set r.1 r.2

/-- A send on a closed channel would panic and one on a full channel would block; both are not
enabled here. -/
def step (req : FanOutRequest) (s : State) : Act → Option State
  | .launch =>
    if s.pc = .launching ∧ s.gather.launched < req.tasks.length then some
      { s with
        gather := s.gather.launch
        inside := Function.update s.inside s.gather.launched true
        wg := s.wg + 1 }
    else none
  | .launched =>
    if s.pc = .launching ∧ s.gather.launched = req.tasks.length then
      some { s with pc := .selecting }
    else none
  | .callDispatch i now =>
    match s.gather.workers i with
    | .pending =>
      if s.inside i then some { s with gather := s.gather.setWorker i (.calling now) } else none
    | _ => none
  | .dispatchReturns i outcome now =>
    match s.gather.workers i, req.tasks[i]? with
    | .calling dispatchedAt, some spec => some
      { s with gather := s.gather.setWorker i (.holding (.of spec outcome dispatchedAt now)) }
    | _, _ => none
  | .send i =>
    match s.gather.workers i with
    | .holding slot =>
      if s.gather.channel.length < req.tasks.length ∧ s.pc.closed = false then
        some { s with gather := s.gather.send i slot }
      else none
    | _ => none
  | .finish i =>
    match s.gather.workers i with
    | .sent =>
      if s.inside i then
        some { s with inside := Function.update s.inside i false, wg := s.wg - 1 }
      else none
    | _ => none
  | .allDone =>
    if s.pc ≠ .launching ∧ s.done = false ∧ s.wg = 0 then some { s with done := true } else none
  | .cancel err => if s.ctxErr = none then some { s with ctxErr := some err } else none
  | .selectDone =>
    if s.pc = .selecting ∧ s.done then some { s with pc := .collecting } else none
  | .selectCtx =>
    if s.pc = .selecting ∧ s.ctxErr.isSome then some { s with pc := .interrupted } else none
  | .awaitDone =>
    if s.pc = .interrupted ∧ s.done then some { s with pc := .collecting } else none
  | .collect =>
    match s.pc, s.gather.channel with
    | .collecting, r :: rest => some
      { s with
        gather := { s.gather with channel := rest }
        result := { s.result with tasks := place s.result.tasks r } }
    | _, _ => none
  | .ret now =>
    match s.pc, s.gather.channel with
    | .collecting, [] => some
      { s with
        pc := .returned (s.ctxErr.map fun err =>
          .wrap "orchestrator: fan-out interrupted" err.toError)
        result := { s.result with completedAt := now } }
    | _, _ => none

/-- What a step can do. -/
inductive Step (req : FanOutRequest) (s : State) : Act → State → Prop
  | launch (hpc : s.pc = .launching) (more : s.gather.launched < req.tasks.length) :
      Step req s .launch
        { s with
          gather := s.gather.launch
          inside := Function.update s.inside s.gather.launched true
          wg := s.wg + 1 }
  | launched (hpc : s.pc = .launching) (all : s.gather.launched = req.tasks.length) :
      Step req s .launched { s with pc := .selecting }
  | callDispatch {i now : ℕ} (hw : s.gather.workers i = .pending) (inside : s.inside i = true) :
      Step req s (.callDispatch i now) { s with gather := s.gather.setWorker i (.calling now) }
  | dispatchReturns {i now dispatchedAt : ℕ} {outcome : Except GoError (String × String)}
      {spec : TaskSpec} (hw : s.gather.workers i = .calling dispatchedAt)
      (hspec : req.tasks[i]? = some spec) :
      Step req s (.dispatchReturns i outcome now)
        { s with gather := s.gather.setWorker i (.holding (.of spec outcome dispatchedAt now)) }
  | send {i : ℕ} {slot : Slot} (hw : s.gather.workers i = .holding slot)
      (room : s.gather.channel.length < req.tasks.length) (opened : s.pc.closed = false) :
      Step req s (.send i) { s with gather := s.gather.send i slot }
  | finish {i : ℕ} (hw : s.gather.workers i = .sent) (inside : s.inside i = true) :
      Step req s (.finish i)
        { s with inside := Function.update s.inside i false, wg := s.wg - 1 }
  | allDone (hpc : s.pc ≠ .launching) (undone : s.done = false) (hwg : s.wg = 0) :
      Step req s .allDone { s with done := true }
  | cancel {err : CtxErr} (alive : s.ctxErr = none) :
      Step req s (.cancel err) { s with ctxErr := some err }
  | selectDone (hpc : s.pc = .selecting) (done : s.done = true) :
      Step req s .selectDone { s with pc := .collecting }
  | selectCtx (hpc : s.pc = .selecting) (ctx : s.ctxErr.isSome = true) :
      Step req s .selectCtx { s with pc := .interrupted }
  | awaitDone (hpc : s.pc = .interrupted) (done : s.done = true) :
      Step req s .awaitDone { s with pc := .collecting }
  | collect {r : ℕ × Slot} {rest : List (ℕ × Slot)} (hpc : s.pc = .collecting)
      (hch : s.gather.channel = r :: rest) :
      Step req s .collect
        { s with
          gather := { s.gather with channel := rest }
          result := { s.result with tasks := place s.result.tasks r } }
  | ret {now : ℕ} (hpc : s.pc = .collecting) (hch : s.gather.channel = []) :
      Step req s (.ret now)
        { s with
          pc := .returned (s.ctxErr.map fun err =>
            .wrap "orchestrator: fan-out interrupted" err.toError)
          result := { s.result with completedAt := now } }

section Steps

variable {req : FanOutRequest} {s t : State} {a : Act}

theorem step_cases (h : step req s a = some t) : Step req s a t := by
  cases a with
  | launch =>
    simp only [step, Option.ite_none_right_eq_some, Option.some.injEq] at h
    obtain ⟨⟨hpc, more⟩, rfl⟩ := h
    exact .launch hpc more
  | launched =>
    simp only [step, Option.ite_none_right_eq_some, Option.some.injEq] at h
    obtain ⟨⟨hpc, all⟩, rfl⟩ := h
    exact .launched hpc all
  | callDispatch i now =>
    simp only [step] at h
    split at h
    · rename_i hw
      split_ifs at h with inside
      cases h
      exact .callDispatch hw inside
    · cases h
  | dispatchReturns i outcome now =>
    simp only [step] at h
    split at h
    · rename_i dispatchedAt spec hw hspec
      cases h
      exact .dispatchReturns hw hspec
    · cases h
  | send i =>
    simp only [step] at h
    split at h
    · rename_i slot hw
      split_ifs at h with hif
      cases h
      exact .send hw hif.1 hif.2
    · cases h
  | finish i =>
    simp only [step] at h
    split at h
    · rename_i hw
      split_ifs at h with inside
      cases h
      exact .finish hw inside
    · cases h
  | allDone =>
    simp only [step, Option.ite_none_right_eq_some, Option.some.injEq] at h
    obtain ⟨⟨hpc, undone, hwg⟩, rfl⟩ := h
    exact .allDone hpc undone hwg
  | cancel err =>
    simp only [step, Option.ite_none_right_eq_some, Option.some.injEq] at h
    obtain ⟨alive, rfl⟩ := h
    exact .cancel alive
  | selectDone =>
    simp only [step, Option.ite_none_right_eq_some, Option.some.injEq] at h
    obtain ⟨⟨hpc, done⟩, rfl⟩ := h
    exact .selectDone hpc done
  | selectCtx =>
    simp only [step, Option.ite_none_right_eq_some, Option.some.injEq] at h
    obtain ⟨⟨hpc, ctx⟩, rfl⟩ := h
    exact .selectCtx hpc ctx
  | awaitDone =>
    simp only [step, Option.ite_none_right_eq_some, Option.some.injEq] at h
    obtain ⟨⟨hpc, done⟩, rfl⟩ := h
    exact .awaitDone hpc done
  | collect =>
    simp only [step] at h
    split at h
    · rename_i r rest hpc hch
      cases h
      exact .collect hpc hch
    · cases h
  | ret now =>
    simp only [step] at h
    split at h
    · rename_i hpc hch
      cases h
      exact .ret hpc hch
    · cases h

theorem Step.enabled (h : Step req s a t) : step req s a = some t := by
  cases h with
  | launch hpc more => simp [step, hpc, more]
  | launched hpc all => simp [step, hpc, all]
  | callDispatch hw inside => simp [step, hw, inside]
  | dispatchReturns hw hspec => simp [step, hw, hspec]
  | send hw room opened => simp [step, hw, room, opened]
  | finish hw inside => simp [step, hw, inside]
  | allDone hpc undone hwg => simp [step, hpc, undone, hwg]
  | cancel alive => simp [step, alive]
  | selectDone hpc done => simp [step, hpc, done]
  | selectCtx hpc ctx => simp [step, hpc, ctx]
  | awaitDone hpc done => simp [step, hpc, done]
  | collect hpc hch => simp [step, hpc, hch]
  | ret hpc hch => simp [step, hpc, hch]

end Steps

end Daedalus.Orchestrator.FanOut
