import Daedalus.Proxy.Handler

/-!
# What a report stands for

A call of `Handle` asks the agent at most once, for the text of its request, and reports the task
as completed only after the agent has answered, with the answer. This is a protocol in the sense of
`Follows`: its phase is the answer the call has got so far.
-/
namespace Daedalus.Proxy

open Foundation Prog A2A

/-- The calls that neither publish nor ask the agent. -/
def Op.silent : Op → Bool
  | .publish _ _ | .prompt _ _ => false
  | _ => true

/-- What a call for `req` may do with the answer it has, and the answer it has then. -/
inductive Backed (req : SendMessageRequest) : Option String → Event Ans → Option String → Prop
  | silent {φ : Option String} {e : Event Ans} (quiet : e.op.silent) : Backed req φ e φ
  | answered (sessionID content : String) :
    Backed req none ⟨.prompt sessionID req.message.extractPromptText, .ok content⟩ (some content)
  | unanswered (sessionID : String) (err : GoError) :
    Backed req none ⟨.prompt sessionID req.message.extractPromptText, .error err⟩ none
  | unfinished {φ : Option String} {state : TaskState} (early : state = .working ∨ state = .failed)
    (message : Option Message) (timestamp : String) (p : Published) :
    Backed req φ ⟨.publish ("agent.status." ++ chooseTaskID req)
      (.status { state, message, timestamp }), p⟩ φ
  | result (content timestamp : String) (metadata : Metadata) (p : Published) :
    Backed req (some content) ⟨.publish ("agent.results." ++ chooseTaskID req)
      (.task (buildTask (chooseTaskID req) req.message.contextID content timestamp metadata)), p⟩
      (some content)
  | completed (content timestamp : String) (p : Published) :
    Backed req (some content) ⟨.publish ("agent.status." ++ chooseTaskID req)
      (.status { state := .completed, timestamp
                 message := some (resultMessage (chooseTaskID req) content) }), p⟩
      (some content)

section Handle

variable {cfg : Config} {req : SendMessageRequest} {φ : Option String}

/-- A part of the handler that learns nothing from the agent. -/
abbrev Learns (req : SendMessageRequest) (φ : Option String) {α : Type} (p : Proc α) : Prop :=
  Follows (Backed req) (fun φ' _ => φ' = φ) φ p

theorem backed_perform {op : Op} (quiet : op.silent) :
    Learns req φ (perform op : Proc (Ans op)) :=
  follows_perform fun _ => .silent quiet

theorem backed_tracked {p : Proc Unit} (h : Learns req φ p) : Learns req φ (tracked cfg p) := by
  unfold tracked
  split_ifs
  · exact h
  · exact follows_pure.mpr rfl

theorem backed_publishStatus {state : TaskState} {message : Option Message}
    (h : ∀ timestamp p, Backed req φ ⟨.publish ("agent.status." ++ chooseTaskID req)
      (.status { state, message, timestamp }), p⟩ φ) :
    Learns req φ (publishStatus cfg (chooseTaskID req) state message) := by
  unfold publishStatus
  split_ifs
  · exact (backed_perform rfl).andThen fun timestamp =>
      (follows_perform (h timestamp)).andThen fun _ => rfl
  · exact follows_pure.mpr rfl

theorem backed_fail (err : GoError) : Learns req φ (fail cfg (chooseTaskID req) err) :=
  (backed_publishStatus (.unfinished (.inr rfl) _)).andThen fun _ => rfl

theorem backed_taskMetadata (sessionID : String) :
    Learns req φ (taskMetadata cfg sessionID) := by
  refine Follows.andThen ?_ fun _ => (backed_perform rfl).andThen fun _ => rfl
  unfold usageMetadata
  split_ifs
  · exact (backed_perform rfl).andThen fun _ => rfl
  · exact follows_pure.mpr rfl

theorem backed_publishTask (content timestamp : String) (metadata : Metadata) :
    Learns req (some content) (publishTask cfg (chooseTaskID req) content
      (buildTask (chooseTaskID req) req.message.contextID content timestamp metadata)) := by
  refine Follows.andThen ?_ ?_
  · unfold publishResult
    split_ifs
    · exact (follows_perform (.result content timestamp metadata)).andThen fun _ => rfl
    · exact follows_pure.mpr rfl
  · intro err
    cases err with
    | some err => exact follows_pure.mpr rfl
    | none => exact (backed_publishStatus (.completed content)).andThen fun _ => rfl

/-- The agent is asked once, and what is published afterwards carries its answer. -/
theorem backed_runSession (sessionID : String) :
    Follows (Backed req) (fun _ _ => True) none
      (runSession cfg req (chooseTaskID req) sessionID) := by
  refine (backed_tracked (backed_perform rfl)).andThen fun _ => ?_
  dsimp only
  split_ifs
  · exact (backed_fail _).mono fun _ _ _ => trivial
  · refine Follows.bind fun answer => ?_
    cases answer with
    | error err =>
      exact ⟨none, .unanswered sessionID err, (backed_fail _).mono fun _ _ _ => trivial⟩
    | ok content =>
      refine ⟨some content, .answered sessionID content, ?_⟩
      refine (backed_tracked (backed_perform rfl)).andThen fun _ =>
        (backed_perform rfl).andThen fun timestamp =>
          (backed_taskMetadata sessionID).andThen fun metadata => ?_
      exact (backed_publishTask content timestamp metadata).mono fun _ _ _ => trivial

/-- On every path, finished or not, the handler keeps to the protocol. -/
theorem backed_handle : Follows (Backed req) (fun _ _ => True) none (handle cfg (.ok req)) := by
  have failed (err : GoError) : Follows (Backed req) (fun _ _ => True) none
      (fail cfg (chooseTaskID req) err) := (backed_fail err).mono fun _ _ _ => trivial
  refine (backed_perform rfl).andThen fun accepted => ?_
  cases accepted with
  | false => trivial
  | true =>
    have body : Follows (Backed req) (fun _ _ => True) none (handleRequest cfg req) := by
      refine (backed_publishStatus (.unfinished (.inl rfl) _)).andThen fun _ =>
        (backed_perform rfl).andThen fun initErr => ?_
      cases initErr with
      | some err => exact failed _
      | none =>
        refine (backed_perform rfl).andThen fun session => ?_
        cases session with
        | error err => exact failed _
        | ok sessionID =>
          refine (backed_perform rfl).andThen fun _ => Follows.bind ?_
          refine (backed_runSession sessionID).mono fun φ result _ => ?_
          exact (backed_perform rfl).andThen fun _ =>
            (backed_tracked (backed_perform rfl)).andThen fun _ => trivial
    refine Follows.bind (body.mono fun φ result _ => ?_)
    exact (backed_perform rfl).andThen fun _ => trivial

end Handle

end Daedalus.Proxy
