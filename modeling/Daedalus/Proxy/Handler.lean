import Daedalus.Foundation.Interaction
import Daedalus.Basic

/-!
# The proxy's message handler

`Handler.Handle` of `internal/proxy/handler.go` as a program: every use of the lock, the ACP
client, the publisher, the tracker and the clock is a call whose answer is open. Logging and
tracing spans are left out, except the trace ID that is stamped into the task.

`Exit` lists the ways a call can end, with everything it published on the way.
-/
namespace Daedalus.Proxy

open Foundation A2A

/-- The value published on a subject. -/
inductive Payload where
  | status (status : TaskStatus)
  | task (task : Task)
  deriving DecidableEq, Repr

/-- What became of a `PublishJSON`: acknowledged, or answered by an error. A message whose
acknowledgement got lost was sent all the same; the code cannot tell. -/
inductive Published where
  | acked
  | lost (err : GoError)
  | unconfirmed (err : GoError)
  deriving DecidableEq, Repr

def Published.err : Published → Option GoError
  | .acked => none
  | .lost err => some err
  | .unconfirmed err => some err

def Published.sent : Published → Bool
  | .lost _ => false
  | _ => true

/-- What `Tracker.GetMetrics` returns, with the value of `UsagePercent`. -/
structure Metrics where
  currentTokens : ℤ
  tokenLimit : ℤ
  turnCount : ℤ
  compactionCount : ℤ
  usagePercent : ℤ
  deriving DecidableEq, Repr

inductive Op where
  /-- The critical section at the start: check `shuttingDown`, then `wg.Add(1)`. -/
  | enter
  /-- `wg.Done()`. -/
  | done
  | now
  | publish (subject : String) (payload : Payload)
  /-- `initOnce.Do`, then the stored error. -/
  | initOnce
  | newSession
  | registerSession (sessionID : String)
  | deregisterSession (sessionID : String)
  | startSession (sessionID taskID : String) (tokenLimit : ℤ)
  | updateTokens (sessionID : String) (tokens : ℤ)
  | getMetrics (sessionID : String)
  | endSession (sessionID : String)
  | prompt (sessionID prompt : String)
  /-- The trace ID of the current span, when its context is valid. -/
  | traceID
  deriving DecidableEq, Repr

/-- The answers; `enter` says whether the call was let in. -/
abbrev Ans : Op → Type
  | .enter => Bool
  | .now => String
  | .publish _ _ => Published
  | .initOnce => Option GoError
  | .newSession => Except GoError String
  | .prompt _ _ => Except GoError String
  | .getMetrics _ => Option Metrics
  | .traceID => Option String
  | _ => Unit

/-- The pointers of the handler that may be nil. -/
structure Config where
  publisher : Bool := true
  tracker : Bool := false

open Prog

abbrev Proc := Prog Op Ans

abbrev enter : Proc Bool := perform Op.enter
abbrev done : Proc Unit := perform Op.done
abbrev now : Proc String := perform Op.now
abbrev publish (subject : String) (payload : Payload) : Proc Published :=
  perform (Op.publish subject payload)
abbrev initOnce : Proc (Option GoError) := perform Op.initOnce
abbrev newSession : Proc (Except GoError String) := perform Op.newSession
abbrev registerSession (sessionID : String) : Proc Unit := perform (Op.registerSession sessionID)
abbrev deregisterSession (sessionID : String) : Proc Unit :=
  perform (Op.deregisterSession sessionID)
abbrev startSession (sessionID taskID : String) (tokenLimit : ℤ) : Proc Unit :=
  perform (Op.startSession sessionID taskID tokenLimit)
abbrev updateTokens (sessionID : String) (tokens : ℤ) : Proc Unit :=
  perform (Op.updateTokens sessionID tokens)
abbrev getMetrics (sessionID : String) : Proc (Option Metrics) := perform (Op.getMetrics sessionID)
abbrev endSession (sessionID : String) : Proc Unit := perform (Op.endSession sessionID)
abbrev acpPrompt (sessionID prompt : String) : Proc (Except GoError String) :=
  perform (Op.prompt sessionID prompt)
abbrev traceID : Proc (Option String) := perform Op.traceID

/-- A call on the context tracker, skipped when there is none. -/
def tracked (cfg : Config) (p : Proc Unit) : Proc Unit := if cfg.tracker then p else pure ()

/-- Publish a task status update. A nil publisher is a no-op. -/
def publishStatus (cfg : Config) (taskID : String) (state : TaskState) (message : Option Message) :
    Proc (Option GoError) :=
  if cfg.publisher then do
    let timestamp ← now
    let p ← publish ("agent.status." ++ taskID) (.status { state, message, timestamp })
    return p.err
  else return none

/-- Publish the task itself. -/
def publishResult (cfg : Config) (taskID : String) (task : Task) : Proc (Option GoError) :=
  if cfg.publisher then do
    let p ← publish ("agent.results." ++ taskID) (.task task)
    return p.err
  else return none

/-- The message of a failed status. -/
def failMsg (taskID : String) (err : GoError) : Message where
  messageID := taskID ++ "-error"
  taskID := taskID
  role := "agent"
  parts := [{ text := err.text }]

/-- Publish a failed status and return the error. -/
def fail (cfg : Config) (taskID : String) (err : GoError) : Proc (Except GoError Unit) := do
  let _ ← publishStatus cfg taskID .failed (some (failMsg taskID err))
  return .error err

def resultMessage (taskID content : String) : Message where
  messageID := taskID ++ "-result"
  taskID := taskID
  role := "agent"
  parts := [{ text := content }]

/-- The A2A task built from the agent's answer. -/
def buildTask (taskID contextID content now : String) (metadata : Metadata) : Task where
  id := taskID
  contextID := contextID
  status :=
    { state := .completed, message := some (resultMessage taskID content), timestamp := now }
  artifacts :=
    [{ artifactID := taskID ++ "-response", name := "agent-response",
       parts := [{ text := content }] }]
  metadata := metadata

/-- The usage record of the task metadata. -/
def contextUsage (m : Metrics) : Value :=
  .contextUsage m.currentTokens m.turnCount m.compactionCount
    (if m.tokenLimit > 0 then some m.usagePercent else none)

/-- The usage record of the session, when it is tracked. -/
def usageMetadata (cfg : Config) (sessionID : String) : Proc Metadata :=
  if cfg.tracker then do
    let metrics ← getMetrics sessionID
    return (metrics.map fun m => ("contextUsage", contextUsage m)).toList
  else return []

/-- The metadata of the task: context usage, then the trace ID. -/
def taskMetadata (cfg : Config) (sessionID : String) : Proc Metadata := do
  let usage ← usageMetadata cfg sessionID
  let id ← traceID
  return usage ++ (id.map fun id => ("trace_id", Value.str id)).toList

/-- Publish the result, then the completed status. -/
def publishTask (cfg : Config) (taskID content : String) (task : Task) :
    Proc (Except GoError Unit) := do
  match ← publishResult cfg taskID task with
  | some err => return .error (.wrap "proxy: publish result" err)
  | none =>
    let _ ← publishStatus cfg taskID .completed (some (resultMessage taskID content))
    return .ok ()

/-- What happens between the registration of a session and its clean-up. -/
def runSession (cfg : Config) (req : SendMessageRequest) (taskID sessionID : String) :
    Proc (Except GoError Unit) := do
  tracked cfg (startSession sessionID taskID 0)
  let prompt := req.message.extractPromptText
  if prompt = "" then fail cfg taskID (.new "proxy: no text content in message parts")
  else
    match ← acpPrompt sessionID prompt with
    | .error err => fail cfg taskID (.wrap "proxy: acp session/prompt" err)
    | .ok content =>
      tracked cfg (updateTokens sessionID ((prompt.utf8ByteSize + content.utf8ByteSize) / 4))
      let timestamp ← now
      let metadata ← taskMetadata cfg sessionID
      publishTask cfg taskID content
        (buildTask taskID req.message.contextID content timestamp metadata)

/-- The task ID, or the message ID when there is none. -/
def chooseTaskID (req : SendMessageRequest) : String :=
  if req.message.taskID = "" then req.message.messageID else req.message.taskID

/-- A decoded request. -/
def handleRequest (cfg : Config) (req : SendMessageRequest) : Proc (Except GoError Unit) := do
  let taskID := chooseTaskID req
  let _ ← publishStatus cfg taskID .working none
  match ← initOnce with
  | some err => fail cfg taskID (.wrap "proxy: acp initialize" err)
  | none =>
    match ← newSession with
    | .error err => fail cfg taskID (.wrap "proxy: acp session/new" err)
    | .ok sessionID =>
      registerSession sessionID
      let result ← runSession cfg req taskID sessionID
      deregisterSession sessionID
      tracked cfg (endSession sessionID)
      return result

/-- The handler past its shutdown check, on data that decodes to a request or does not. -/
def handleData (cfg : Config) : Except GoError SendMessageRequest → Proc (Except GoError Unit)
  | .error err => return .error (.wrap "proxy: unmarshal SendMessageRequest" err)
  | .ok req => handleRequest cfg req

def rejected : GoError := .new "proxy: rejecting message, shutdown in progress"

/-- `Handler.Handle`. -/
def handle (cfg : Config) (data : Except GoError SendMessageRequest) :
    Proc (Except GoError Unit) := do
  if ← enter then
    let result ← handleData cfg data
    done
    return result
  else return .error rejected

/-! ## Executions -/

abbrev Trace := List (Event Ans)

/-- What an execution published, in order. -/
def publications (es : Trace) : List (String × Payload × Published) :=
  es.filterMap fun
    | ⟨.publish subject payload, p⟩ => some (subject, payload, p)
    | _ => none

@[simp] theorem publications_nil : publications [] = [] := rfl

@[simp] theorem publications_append (es es' : Trace) :
    publications (es ++ es') = publications es ++ publications es' :=
  List.filterMap_append

/-- Whether the execution got past the shutdown check. -/
def admitted : Trace → Bool
  | ⟨.enter, accepted⟩ :: _ => accepted
  | _ => false

def statusPub (taskID : String) (state : TaskState) (message : Option Message)
    (timestamp : String) (p : Published) : String × Payload × Published :=
  ("agent.status." ++ taskID, .status { state, message, timestamp }, p)

def resultPub (taskID : String) (task : Task) (p : Published) : String × Payload × Published :=
  ("agent.results." ++ taskID, .task task, p)

/-- The ACP side answered by an error. -/
def isAcpError : Event Ans → Bool
  | ⟨.initOnce, some _⟩ => true
  | ⟨.newSession, .error _⟩ => true
  | ⟨.prompt _ _, .error _⟩ => true
  | _ => false

/-- The reasons to fail a task: a request without text, or an ACP error. -/
def Faulty (req : SendMessageRequest) (es : Trace) : Prop :=
  req.message.extractPromptText = "" ∨ ∃ e ∈ es, isAcpError e

/-- The ways a request that was let in ends, with what was published after the working status:
a failed status, a result that was not acknowledged, or a result and a completed status. -/
inductive Ending (req : SendMessageRequest) (faulty : Prop) :
    List (String × Payload × Published) → Except GoError Unit → Prop
  | failed (why : faulty) (err : GoError) (t : String) (p : Published) :
    Ending req faulty
      [statusPub (chooseTaskID req) .failed (some (failMsg (chooseTaskID req) err)) t p]
      (.error err)
  | unpublished (text : req.message.extractPromptText ≠ "") (content t : String)
    (metadata : Metadata) (p : Published) (err : GoError) (refused : p.err = some err) :
    Ending req faulty
      [resultPub (chooseTaskID req)
        (buildTask (chooseTaskID req) req.message.contextID content t metadata) p]
      (.error (.wrap "proxy: publish result" err))
  | done (text : req.message.extractPromptText ≠ "") (content t t' : String)
    (metadata : Metadata) (p : Published) :
    Ending req faulty
      [resultPub (chooseTaskID req)
        (buildTask (chooseTaskID req) req.message.contextID content t metadata) .acked,
       statusPub (chooseTaskID req) .completed
         (some (resultMessage (chooseTaskID req) content)) t' p]
      (.ok ())

/-- The ways `Handle` ends on a decoded request. -/
inductive Exit (req : SendMessageRequest) (es : Trace) : Except GoError Unit → Prop
  | rejected (out : admitted es = false) (published : publications es = []) :
    Exit req es (.error rejected)
  | ended (t : String) (p : Published) {rest : List (String × Payload × Published)}
    {r : Except GoError Unit} (let_in : admitted es = true)
    (published : publications es = statusPub (chooseTaskID req) .working none t p :: rest)
    (ending : Ending req (Faulty req es) rest r) : Exit req es r

section Spec

variable {cfg : Config} {es : Trace} {taskID : String} {req : SendMessageRequest}
  {r : Except GoError Unit}

theorem publishStatus_publications (hp : cfg.publisher) {state : TaskState}
    {message : Option Message} {err : Option GoError}
    (h : replay (publishStatus cfg taskID state message) es = some err) :
    ∃ t p, publications es = [statusPub taskID state message t p] := by
  simp only [publishStatus, hp, if_true, replay_bind, replay_perform, replay_pure] at h
  obtain ⟨_, _, rfl, t, rfl, _, _, rfl, p, rfl, rfl, rfl⟩ := h
  exact ⟨t, p, rfl⟩

theorem publishResult_publications (hp : cfg.publisher) {task : Task} {err : Option GoError}
    (h : replay (publishResult cfg taskID task) es = some err) :
    ∃ p, publications es = [resultPub taskID task p] ∧ err = p.err := by
  simp only [publishResult, hp, if_true, replay_bind, replay_perform, replay_pure] at h
  obtain ⟨_, _, rfl, p, rfl, rfl, rfl⟩ := h
  exact ⟨p, rfl, rfl⟩

/-- A part of the handler that publishes nothing. -/
def Quiet {α : Type} (p : Proc α) : Prop :=
  ∀ es a, replay p es = some a → publications es = []

theorem quiet_pure {α : Type} (a : α) : Quiet (pure a) := by
  intro es b hes
  rw [(replay_pure.mp hes).1]
  rfl

theorem Quiet.tracked {p : Proc Unit} (h : Quiet p) : Quiet (tracked cfg p) := by
  unfold Proxy.tracked
  split_ifs
  · exact h
  · exact quiet_pure ()

theorem quiet_perform {op : Op} (other : ∀ subject payload, op ≠ .publish subject payload) :
    Quiet (perform op : Proc (Ans op)) := by
  intro es a hes
  rw [replay_perform.mp hes]
  cases op <;> first | rfl | exact absurd rfl (other _ _)

theorem Quiet.bind {α β : Type} {p : Proc α} {f : α → Proc β} (hp : Quiet p)
    (hf : ∀ a, Quiet (f a)) : Quiet (p >>= f) := by
  intro es b hes
  obtain ⟨es₁, es₂, rfl, a, h₁, h₂⟩ := replay_bind.mp hes
  rw [publications_append, hp es₁ a h₁, hf a es₂ b h₂]
  rfl

theorem quiet_taskMetadata (sessionID : String) : Quiet (taskMetadata cfg sessionID) := by
  refine Quiet.bind ?_ fun _ => (quiet_perform (by simp)).bind fun _ => quiet_pure _
  unfold usageMetadata
  split_ifs
  · exact (quiet_perform (by simp)).bind fun _ => quiet_pure _
  · exact quiet_pure _

theorem fail_ending (hp : cfg.publisher) {err : GoError} {faulty : Prop} (why : faulty)
    (h : replay (fail cfg (chooseTaskID req) err) es = some r) :
    Ending req faulty (publications es) r := by
  simp only [fail, replay_bind, replay_pure] at h
  obtain ⟨es', _, rfl, _, hstatus, rfl, rfl⟩ := h
  obtain ⟨t, p, e⟩ := publishStatus_publications hp hstatus
  rw [publications_append, e]
  exact .failed why err t p

theorem publishTask_ending (hp : cfg.publisher) {content t : String} {metadata : Metadata}
    {faulty : Prop} (text : req.message.extractPromptText ≠ "")
    (h : replay (publishTask cfg (chooseTaskID req) content
      (buildTask (chooseTaskID req) req.message.contextID content t metadata)) es = some r) :
    Ending req faulty (publications es) r := by
  simp only [publishTask, replay_bind] at h
  obtain ⟨es', es'', rfl, err, hresult, h⟩ := h
  obtain ⟨p, e, rfl⟩ := publishResult_publications hp hresult
  rw [publications_append, e]
  cases p with
  | acked =>
    simp only [Published.err, replay_bind, replay_pure] at h
    obtain ⟨es₁, _, rfl, _, hstatus, rfl, rfl⟩ := h
    obtain ⟨t', q, e'⟩ := publishStatus_publications hp hstatus
    rw [publications_append, e']
    exact .done text content t t' metadata q
  | lost err =>
    simp only [Published.err, replay_pure] at h
    obtain ⟨rfl, rfl⟩ := h
    exact .unpublished text content t metadata _ err rfl
  | unconfirmed err =>
    simp only [Published.err, replay_pure] at h
    obtain ⟨rfl, rfl⟩ := h
    exact .unpublished text content t metadata _ err rfl

theorem runSession_ending (hp : cfg.publisher) {sessionID : String}
    (h : replay (runSession cfg req (chooseTaskID req) sessionID) es = some r) :
    Ending req (Faulty req es) (publications es) r := by
  simp only [runSession, replay_bind] at h
  obtain ⟨es₀, es₁, rfl, _, hstart, h⟩ := h
  have quiet : Quiet (startSession sessionID (chooseTaskID req) 0) := quiet_perform (by simp)
  rw [publications_append, quiet.tracked es₀ _ hstart, List.nil_append]
  split_ifs at h with empty
  · exact fail_ending hp (.inl empty) h
  · simp only [replay_bind] at h
    obtain ⟨_, es₂, rfl, answer, hprompt, h⟩ := h
    rw [publications_append, quiet_perform (by simp) _ _ hprompt, List.nil_append]
    obtain rfl := replay_perform.mp hprompt
    cases answer with
    | error err =>
      refine fail_ending hp (.inr ⟨⟨.prompt sessionID req.message.extractPromptText, .error err⟩,
        by simp, rfl⟩) h
    | ok content =>
      simp only [replay_bind] at h
      obtain ⟨es₃, _, rfl, _, hupdate, _, _, rfl, t, hnow, es₄, es₅, rfl, metadata, hmeta, h⟩ := h
      have update : Quiet (updateTokens sessionID
        ((req.message.extractPromptText.utf8ByteSize + content.utf8ByteSize) / 4)) :=
        quiet_perform (by simp)
      simpa [update.tracked es₃ _ hupdate, quiet_perform (by simp) _ _ hnow,
        quiet_taskMetadata sessionID es₄ _ hmeta] using publishTask_ending hp empty h

theorem Ending.mono {faulty faulty' : Prop} {rest : List (String × Payload × Published)}
    (h : Ending req faulty rest r) (why : faulty → faulty') : Ending req faulty' rest r := by
  cases h with
  | failed hwhy err t p => exact .failed (why hwhy) err t p
  | unpublished text content t metadata p err refused =>
    exact .unpublished text content t metadata p err refused
  | done text content t t' metadata p => exact .done text content t t' metadata p

theorem Faulty.mono {es' : Trace} (h : Faulty req es) (sub : es ⊆ es') : Faulty req es' := by
  refine h.imp_right ?_
  rintro ⟨e, he, herr⟩
  exact ⟨e, sub he, herr⟩

theorem handleRequest_ending (hp : cfg.publisher) (h : replay (handleRequest cfg req) es = some r) :
    ∃ t p rest, publications es = statusPub (chooseTaskID req) .working none t p :: rest ∧
      Ending req (Faulty req es) rest r := by
  simp only [handleRequest, replay_bind] at h
  obtain ⟨es₀, es₁, rfl, _, hstatus, _, es₂, rfl, initErr, hinit, h⟩ := h
  obtain ⟨t, p, e⟩ := publishStatus_publications hp hstatus
  have init := quiet_perform (by simp) _ _ hinit
  refine ⟨t, p, publications es₂, by simp [e, init], ?_⟩
  obtain rfl := replay_perform.mp hinit
  cases initErr with
  | some err => exact fail_ending hp (.inr ⟨⟨.initOnce, some err⟩, by simp, rfl⟩) h
  | none =>
    simp only [replay_bind] at h
    obtain ⟨_, es₃, rfl, session, hnew, h⟩ := h
    rw [publications_append, quiet_perform (by simp) _ _ hnew, List.nil_append]
    obtain rfl := replay_perform.mp hnew
    cases session with
    | error err => exact fail_ending hp (.inr ⟨⟨.newSession, .error err⟩, by simp, rfl⟩) h
    | ok sessionID =>
      simp only [replay_bind, replay_pure] at h
      obtain ⟨_, _, rfl, _, hreg, es₄, _, rfl, _, hrun, _, _, rfl, _, hdereg, _, _, rfl, _, hend,
        rfl, rfl⟩ := h
      have cleanUp : Quiet (endSession sessionID) := quiet_perform (by simp)
      have ending := runSession_ending hp hrun
      simp only [publications_append, quiet_perform (by simp) _ _ hreg,
        quiet_perform (by simp) _ _ hdereg, cleanUp.tracked _ _ hend, List.nil_append,
        List.append_nil]
      exact ending.mono fun why => why.mono fun e he => by simp [he]

/-- Every execution of the handler on a decoded request ends in one of the listed ways. -/
theorem handle_exit (hp : cfg.publisher) (h : replay (handle cfg (.ok req)) es = some r) :
    Exit req es r := by
  simp only [handle, replay_bind, replay_perform] at h
  obtain ⟨_, es₁, rfl, accepted, rfl, h⟩ := h
  cases accepted with
  | false =>
    obtain ⟨rfl, rfl⟩ := replay_pure.mp h
    exact .rejected rfl rfl
  | true =>
    simp only [if_true, replay_bind, replay_pure] at h
    obtain ⟨es₂, _, rfl, _, hreq, _, _, rfl, _, hdone, rfl, rfl⟩ := h
    obtain ⟨t, p, rest, e, ending⟩ := handleRequest_ending hp hreq
    refine .ended t p rfl ?_ (ending.mono fun why => why.mono (by simp))
    change publications (es₂ ++ _) = _
    simpa [quiet_perform (by simp) _ _ hdone] using e

/-! ## Whom the publications are for -/

/-- What a publication for a task looks like: there is a publisher, a status goes to the status
subject of the task, and a task with its ID to the result subject. -/
def Addressed (cfg : Config) (taskID : String) : Op → Prop
  | .publish subject (.status _) => cfg.publisher = true ∧ subject = "agent.status." ++ taskID
  | .publish subject (.task task) =>
    cfg.publisher = true ∧ subject = "agent.results." ++ taskID ∧ task.id = taskID
  | _ => True

theorem addressed_tracked {p : Proc Unit} (h : Calls (Addressed cfg taskID) p) :
    Calls (Addressed cfg taskID) (tracked cfg p) := by
  unfold tracked
  split_ifs
  · exact h
  · exact calls_pure _

/-- The calls that a report on a task is made of. -/
def Op.reporting : Op → Bool
  | .now | .publish _ _ | .getMetrics _ | .traceID => true
  | _ => false

/-- A report on the given task. -/
def Reports (cfg : Config) (taskID : String) (op : Op) : Prop :=
  Addressed cfg taskID op ∧ op.reporting

theorem reports_publishStatus (state : TaskState) (message : Option Message) :
    Calls (Reports cfg taskID) (publishStatus cfg taskID state message) := by
  unfold publishStatus
  split_ifs with hp
  · exact (calls_perform ⟨trivial, rfl⟩).bind fun _ =>
      (calls_perform ⟨⟨hp, rfl⟩, rfl⟩).bind fun _ => calls_pure _
  · exact calls_pure _

theorem reports_fail (err : GoError) : Calls (Reports cfg taskID) (fail cfg taskID err) :=
  (reports_publishStatus _ _).bind fun _ => calls_pure _

theorem reports_taskMetadata (sessionID : String) :
    Calls (Reports cfg taskID) (taskMetadata cfg sessionID) := by
  refine Calls.bind ?_ fun _ => (calls_perform ⟨trivial, rfl⟩).bind fun _ => calls_pure _
  unfold usageMetadata
  split_ifs
  · exact (calls_perform ⟨trivial, rfl⟩).bind fun _ => calls_pure _
  · exact calls_pure _

theorem reports_publishTask (content : String) {task : Task} (own : task.id = taskID) :
    Calls (Reports cfg taskID) (publishTask cfg taskID content task) := by
  refine Calls.bind ?_ ?_
  · unfold publishResult
    split_ifs with hp
    · exact (calls_perform ⟨⟨hp, rfl, own⟩, rfl⟩).bind fun _ => calls_pure _
    · exact calls_pure _
  · intro err
    cases err with
    | some err => exact calls_pure _
    | none => exact (reports_publishStatus _ _).bind fun _ => calls_pure _

theorem addressed_of_reports {α : Type} {p : Proc α} (h : Calls (Reports cfg taskID) p) :
    Calls (Addressed cfg taskID) p :=
  h.mono fun _ => And.left

theorem addressed_runSession (sessionID : String) :
    Calls (Addressed cfg taskID) (runSession cfg req taskID sessionID) := by
  refine (addressed_tracked (calls_perform trivial)).bind fun _ => ?_
  dsimp only
  split_ifs
  · exact addressed_of_reports (reports_fail _)
  · refine (calls_perform trivial).bind fun answer => ?_
    cases answer with
    | error err => exact addressed_of_reports (reports_fail _)
    | ok content =>
      exact (addressed_tracked (calls_perform trivial)).bind fun _ =>
        (calls_perform trivial).bind fun _ => addressed_of_reports <|
          (reports_taskMetadata sessionID).bind fun _ => reports_publishTask content rfl

/-- On every path, finished or not, the handler publishes for the task of its request only. -/
theorem addressed_handle : Calls (Addressed cfg (chooseTaskID req)) (handle cfg (.ok req)) := by
  refine (calls_perform trivial).bind fun accepted => ?_
  cases accepted with
  | false => exact calls_pure _
  | true =>
    refine Calls.bind ?_ fun _ => (calls_perform trivial).bind fun _ => calls_pure _
    refine (addressed_of_reports (reports_publishStatus _ _)).bind fun _ => ?_
    refine (calls_perform trivial).bind fun initErr => ?_
    cases initErr with
    | some err => exact addressed_of_reports (reports_fail _)
    | none =>
      refine (calls_perform trivial).bind fun session => ?_
      cases session with
      | error err => exact addressed_of_reports (reports_fail _)
      | ok sessionID =>
        exact (calls_perform trivial).bind fun _ => (addressed_runSession sessionID).bind fun _ =>
          (calls_perform trivial).bind fun _ =>
            (addressed_tracked (calls_perform trivial)).bind fun _ => calls_pure _

/-- Without a publisher nothing is published at all. -/
theorem quiet_handle (hp : cfg.publisher = false) : Quiet (handle cfg (.ok req)) := by
  intro es r hes
  rw [publications, List.filterMap_eq_nil_iff]
  intro e he
  have addressed := addressed_handle.replay hes e he
  obtain ⟨op, ans⟩ := e
  cases op with
  | publish subject payload => cases payload <;> simp [Addressed, hp] at addressed
  | _ => rfl

end Spec

end Daedalus.Proxy
