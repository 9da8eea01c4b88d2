import Daedalus.Basic

/-!
# The dispatcher

`internal/dispatch`. A task specification is routed through the registry and published as an
A2A `SendMessageRequest` on the queue subject of the chosen agent. The registry, the publisher
and the random generator answer through `DispatchEnv`.
-/
namespace Daedalus.Dispatch

open A2A

/-- A single task to dispatch. `Priority` is reserved and never read. -/
structure TaskSpec where
  id : String := ""
  skillID : String := ""
  tags : List String := []
  prompt : String := ""
  metadata : Metadata := []
  deriving DecidableEq, Repr

structure DispatchEnv where
  /-- `generateID`. -/
  generateID : Except GoError String
  /-- `registry.RouteByScore` for a skill and tags: the queue subject of the chosen agent. -/
  routeByScore : String → List String → Except GoError String
  /-- `publisher.PublishJSON`: `none` when the message was accepted. -/
  publishJSON : String → SendMessageRequest → Option GoError

/-- The message published for a task. -/
def buildRequest (spec : TaskSpec) (taskID contextID : String) : SendMessageRequest where
  message :=
    { messageID := taskID
      taskID := taskID
      contextID := contextID
      role := "user"
      parts := [{ text := spec.prompt }]
      metadata := spec.metadata }

/-- The task ID: the one given, or a generated one under the context ID. -/
def chooseID (env : DispatchEnv) (spec : TaskSpec) (contextID : String) :
    Except GoError String :=
  if spec.id = "" then
    match env.generateID with
    | .error err => .error (.wrap "dispatch: generate task ID" err)
    | .ok suffix => .ok (if contextID ≠ "" then contextID ++ "-" ++ suffix else suffix)
  else .ok spec.id

/-- `Dispatcher.Dispatch`: the attempted publications, and the task ID with its subject. -/
def dispatch (env : DispatchEnv) (spec : TaskSpec) (contextID : String) :
    List (String × SendMessageRequest) × Except GoError (String × String) :=
  match chooseID env spec contextID with
  | .error err => ([], .error err)
  | .ok taskID =>
    match env.routeByScore spec.skillID spec.tags with
    | .error err =>
      ([], .error (.wrap
        ("dispatch: route task " ++ taskID ++ " (skill=" ++ spec.skillID ++ ")") err))
    | .ok subject =>
      let req := buildRequest spec taskID contextID
      match env.publishJSON subject req with
      | some err =>
        ([(subject, req)],
          .error (.wrap ("dispatch: publish task " ++ taskID ++ " to " ++ subject) err))
      | none => ([(subject, req)], .ok (taskID, subject))

section Cases

variable {env : DispatchEnv} {spec : TaskSpec} {contextID taskID subject : String}

/-- A dispatch stops before it publishes, or it publishes exactly one request, to the subject the
registry names, and returns the ID and the subject of that request if it succeeds. -/
theorem dispatch_cases (env : DispatchEnv) (spec : TaskSpec) (contextID : String) :
    (∃ err, dispatch env spec contextID = ([], .error err)) ∨
    ∃ taskID subject, chooseID env spec contextID = .ok taskID ∧
      env.routeByScore spec.skillID spec.tags = .ok subject ∧
      (dispatch env spec contextID).1 = [(subject, buildRequest spec taskID contextID)] ∧
      ∀ sent, (dispatch env spec contextID).2 = .ok sent → sent = (taskID, subject) := by
  unfold dispatch
  cases hc : chooseID env spec contextID with
  | error err => exact .inl ⟨err, rfl⟩
  | ok taskID =>
    cases hr : env.routeByScore spec.skillID spec.tags with
    | error err => exact .inl ⟨_, rfl⟩
    | ok subject =>
      refine .inr ⟨taskID, subject, rfl, rfl, ?_⟩
      cases hp : env.publishJSON subject (buildRequest spec taskID contextID) with
      | some err => simp [hp]
      | none => simp [hp, eq_comm]

/-- A dispatch that succeeds has published exactly one request, for the ID it returns. -/
theorem dispatch_ok (h : (dispatch env spec contextID).2 = .ok (taskID, subject)) :
    chooseID env spec contextID = .ok taskID ∧
      (dispatch env spec contextID).1 = [(subject, buildRequest spec taskID contextID)] := by
  obtain ⟨err, stopped⟩ | ⟨id, subj, chosen, -, published, sent⟩ :=
    dispatch_cases env spec contextID
  · rw [stopped] at h
    cases h
  · cases sent _ h
    exact ⟨chosen, published⟩

theorem dispatch_published_le (env : DispatchEnv) (spec : TaskSpec) (contextID : String) :
    (dispatch env spec contextID).1.length ≤ 1 := by
  obtain ⟨err, stopped⟩ | ⟨id, subj, -, -, published, -⟩ := dispatch_cases env spec contextID
  · simp [stopped]
  · simp [published]

/-- What is published goes where the registry routes the task. -/
theorem dispatch_routed {req : SendMessageRequest}
    (h : (subject, req) ∈ (dispatch env spec contextID).1) :
    env.routeByScore spec.skillID spec.tags = .ok subject := by
  obtain ⟨err, stopped⟩ | ⟨id, subj, -, routed, published, -⟩ := dispatch_cases env spec contextID
  · simp [stopped] at h
  · rw [published, List.mem_singleton] at h
    cases h
    exact routed

/-- A task that cannot be routed is not published. -/
theorem dispatch_unrouted {err : GoError}
    (h : env.routeByScore spec.skillID spec.tags = .error err) (contextID : String) :
    (dispatch env spec contextID).1 = [] ∧ ∃ err, (dispatch env spec contextID).2 = .error err := by
  obtain ⟨err', stopped⟩ | ⟨id, subj, -, routed, -, -⟩ := dispatch_cases env spec contextID
  · exact ⟨by rw [stopped], err', by rw [stopped]⟩
  · rw [h] at routed
    cases routed

/-- A given ID is kept as it is: neither the context ID nor anything else enters it. -/
theorem dispatch_keeps_id (given : spec.id ≠ "")
    (h : (dispatch env spec contextID).2 = .ok (taskID, subject)) : taskID = spec.id := by
  have chosen := (dispatch_ok h).1
  rw [chooseID, if_neg given] at chosen
  cases chosen
  rfl

end Cases

end Daedalus.Dispatch
