import Daedalus.A2A.Wire
import Daedalus.Dispatch.Dispatcher
import Daedalus.Proxy.Handler

/-!
# What is published is what arrives

The other modules speak of the values that `PublishJSON` is called with and that
`json.Unmarshal` returns, not of documents. That is justified here: a request of the dispatcher, and
a status or task of the handler, is read as the same value by whoever gets the document. Metadata
are entries in the order of their keys, and what is read from them are `float64`s, so the numbers of
a usage record have to have 53 bits. A metadata value that is neither a text nor a usage record goes
by its text, which `parse` and `render` relate to documents; the handler publishes none.
-/
namespace Daedalus.Pipeline.Transport

open Foundation Json A2A Proxy Prog Dispatch

/-! ## Values and documents -/

variable (parse : String → Json) (render : Json → String)

def document : Value → Json
  | .str s => .str s
  | .contextUsage tokens turns compactions usage =>
    .obj ([("compactionCount", .num compactions), ("currentTokens", .num tokens),
      ("turnCount", .num turns)] ++ (usage.map fun p => ("usagePercent", .num p)).toList)
  | .json text => parse text

def value : Json → Value
  | .str s => .str s
  | .obj [("compactionCount", .num compactions), ("currentTokens", .num tokens),
      ("turnCount", .num turns)] => .contextUsage tokens turns compactions none
  | .obj [("compactionCount", .num compactions), ("currentTokens", .num tokens),
      ("turnCount", .num turns), ("usagePercent", .num usage)] =>
    .contextUsage tokens turns compactions (some usage)
  | j => .json (render j)

/-- The state that a text names. -/
def taskState (name : String) : TaskState :=
  if h : name ∈ stateNames then
    if name = "submitted" then .submitted
    else if name = "working" then .working
    else if name = "completed" then .completed
    else if name = "failed" then .failed
    else if name = "canceled" then .canceled
    else if name = "input-required" then .inputRequired
    else .rejected
  else .unknown name h

/-! ## What is written -/

def wirePart (p : Part) : Wire.Part where
  text := p.text

def wireMetadata (metadata : Metadata) : Dict :=
  .ofMembers (metadata.map fun e => (e.1, document parse e.2))

def wireMessage (m : Message) : Wire.Message where
  messageID := m.messageID
  contextID := m.contextID
  taskID := m.taskID
  role := m.role
  parts := m.parts.map wirePart
  metadata := wireMetadata parse m.metadata

def wireStatus (s : TaskStatus) : Wire.TaskStatus where
  state := s.state.name
  message := s.message.map (wireMessage parse)
  timestamp := s.timestamp

def wireArtifact (a : Artifact) : Wire.Artifact where
  artifactID := a.artifactID
  name := a.name
  parts := a.parts.map wirePart

def wireTask (t : Task) : Wire.Task where
  id := t.id
  contextID := t.contextID
  status := wireStatus parse t.status
  artifacts := t.artifacts.map wireArtifact
  metadata := wireMetadata parse t.metadata

def wireRequest (r : SendMessageRequest) : Wire.SendMessageRequest where
  message := wireMessage parse r.message

/-! ## What is seen of what is read -/

def seenPart (p : Wire.Part) : Part where
  text := p.text

def seenMetadata (d : Dict) : Metadata := d.entries.map fun e => (e.1, value render e.2)

def seenMessage (m : Wire.Message) : Message where
  messageID := m.messageID
  contextID := m.contextID
  taskID := m.taskID
  role := m.role
  parts := m.parts.map seenPart
  metadata := seenMetadata render m.metadata

def seenStatus (s : Wire.TaskStatus) : TaskStatus where
  state := taskState s.state
  message := s.message.map (seenMessage render)
  timestamp := s.timestamp

def seenArtifact (a : Wire.Artifact) : Artifact where
  artifactID := a.artifactID
  name := a.name
  parts := a.parts.map seenPart

def seenTask (t : Wire.Task) : Task where
  id := t.id
  contextID := t.contextID
  status := seenStatus render t.status
  artifacts := t.artifacts.map seenArtifact
  metadata := seenMetadata render t.metadata

def seenRequest (r : Wire.SendMessageRequest) : SendMessageRequest where
  message := seenMessage render r.message

/-! ## Seeing what was written -/

/-- The entries are in the order of their keys, and their values are texts and usage records. -/
structure Canonical (metadata : Metadata) : Prop where
  sorted : metadata.Pairwise fun e e' => e.1 < e'.1
  plain : ∀ e ∈ metadata, ∀ text, e.2 ≠ .json text

/-- The numbers of a usage record have at most 53 bits. -/
def FitsFloat : Value → Prop
  | .contextUsage tokens turns compactions usage =>
    ∀ n ∈ [tokens, turns, compactions] ++ usage.toList, n.natAbs < 2 ^ 53
  | _ => True

def MetadataFits (metadata : Metadata) : Prop := ∀ e ∈ metadata, FitsFloat e.2

section Seen

variable {parse render}

theorem taskState_name (s : TaskState) : taskState s.name = s := by
  cases s with
  | unknown name other => simp [taskState, TaskState.name, other]
  | _ => rfl

theorem value_document {v : Value} (plain : ∀ text, v ≠ .json text) :
    value render (document parse v) = v := by
  cases v with
  | str s => rfl
  | contextUsage tokens turns compactions usage => cases usage <;> rfl
  | json text => exact absurd rfl (plain text)

theorem entries_wireMetadata {metadata : Metadata} (h : Canonical metadata) :
    (wireMetadata parse metadata).entries = metadata.map fun e => (e.1, document parse e.2) := by
  have sorted : (metadata.map fun e => (e.1, document parse e.2)).Pairwise
      fun e e' => e.1 < e'.1 := List.pairwise_map.mpr h.sorted
  exact congrArg Dict.entries (Dict.ofMembers_entries ⟨_, sorted⟩)

theorem seen_metadata {metadata : Metadata} (h : Canonical metadata) :
    seenMetadata render (wireMetadata parse metadata) = metadata := by
  unfold seenMetadata
  rw [entries_wireMetadata h, List.map_map]
  refine (List.map_congr_left fun e he => ?_).trans (List.map_id metadata)
  exact Prod.ext rfl (value_document (h.plain e he))

@[simp] theorem seen_part (p : Part) : seenPart (wirePart p) = p := rfl

theorem seen_message {m : Message} (h : Canonical m.metadata) :
    seenMessage render (wireMessage parse m) = m := by
  simp [seenMessage, wireMessage, seen_metadata h, Function.comp_def]

@[simp] theorem seen_artifact (a : Artifact) : seenArtifact (wireArtifact a) = a := by
  simp [seenArtifact, wireArtifact, Function.comp_def]

theorem seen_status {s : TaskStatus} (h : ∀ m ∈ s.message, Canonical m.metadata) :
    seenStatus render (wireStatus parse s) = s := by
  obtain ⟨state, message, timestamp⟩ := s
  cases message with
  | none => simp [seenStatus, wireStatus, taskState_name]
  | some m => simp [seenStatus, wireStatus, taskState_name, seen_message (h m rfl)]

theorem seen_task {t : Task} (hstatus : ∀ m ∈ t.status.message, Canonical m.metadata)
    (hmetadata : Canonical t.metadata) : seenTask render (wireTask parse t) = t := by
  simp [seenTask, wireTask, seen_status hstatus, seen_metadata hmetadata, Function.comp_def]

end Seen

section Fits

variable {parse}

/-- The members of a usage record are in the order of their names. -/
theorem fits_usage {tokens turns compactions : ℤ} {usage : Option ℤ}
    (h : ∀ n ∈ [tokens, turns, compactions] ++ usage.toList, n.natAbs < 2 ^ 53) :
    Fits (document parse (.contextUsage tokens turns compactions usage)) := by
  refine ⟨?_, fitsMembers_iff.mpr ?_⟩
  · have names : ["compactionCount", "currentTokens", "turnCount", "usagePercent"].Pairwise
        (· < ·) := by decide
    cases usage with
    | none =>
      exact List.pairwise_map.mp
        (names.sublist (List.sublist_append_left _ ["usagePercent"]))
    | some p => exact List.pairwise_map.mp names
  · intro m hm
    simp only [List.cons_append, List.nil_append, List.mem_cons, Option.mem_toList,
      Option.map_eq_some_iff, forall_eq_or_imp] at hm h
    obtain ⟨htokens, hturns, hcompactions, husage⟩ := h
    rcases hm with rfl | rfl | rfl | ⟨p, hp, rfl⟩
    · exact hcompactions
    · exact htokens
    · exact hturns
    · exact husage p hp

theorem fits_document {v : Value} (plain : ∀ text, v ≠ .json text) (h : FitsFloat v) :
    Fits (document parse v) := by
  cases v with
  | str s => trivial
  | contextUsage tokens turns compactions usage => exact fits_usage h
  | json text => exact absurd rfl (plain text)

theorem fits_metadata {metadata : Metadata} (h : Canonical metadata)
    (fits : MetadataFits metadata) : (wireMetadata parse metadata).Fits := by
  refine fitsMembers_iff.mpr fun m hm => ?_
  rw [entries_wireMetadata h] at hm
  obtain ⟨entry, hentry, rfl⟩ := List.mem_map.mp hm
  exact fits_document (h.plain entry hentry) (fits entry hentry)

theorem fits_parts (parts : List Part) : ∀ p ∈ parts.map wirePart, p.Fits := by
  intro p hp
  obtain ⟨part, -, rfl⟩ := List.mem_map.mp hp
  trivial

theorem fits_message {m : Message} (h : Canonical m.metadata)
    (fits : MetadataFits m.metadata) : (wireMessage parse m).Fits :=
  ⟨fits_parts m.parts, fits_metadata h fits⟩

theorem fits_status {s : TaskStatus} (h : ∀ m ∈ s.message, Canonical m.metadata)
    (fits : ∀ m ∈ s.message, MetadataFits m.metadata) : (wireStatus parse s).Fits := by
  intro m hm
  obtain ⟨message, hmessage, rfl⟩ := Option.map_eq_some_iff.mp hm
  exact fits_message (h message hmessage) (fits message hmessage)

theorem fits_task {t : Task} (hstatus : ∀ m ∈ t.status.message, Canonical m.metadata)
    (hmetadata : Canonical t.metadata)
    (fstatus : ∀ m ∈ t.status.message, MetadataFits m.metadata)
    (fmetadata : MetadataFits t.metadata) : (wireTask parse t).Fits where
  status := fits_status hstatus fstatus
  artifacts := by
    intro a ha
    obtain ⟨artifact, -, rfl⟩ := List.mem_map.mp ha
    exact ⟨fits_parts artifact.parts, trivial⟩
  history := by simp [wireTask]
  metadata := fits_metadata hmetadata fmetadata

theorem fits_request {r : SendMessageRequest} (h : Canonical r.message.metadata)
    (fits : MetadataFits r.message.metadata) : (wireRequest parse r).Fits where
  message := fits_message h fits
  configuration := by simp [wireRequest]

end Fits

/-! ## Statuses and tasks -/

/-- What is read from the document of a payload is the payload. -/
def Arrives : Payload → Prop
  | .status s => (unmarshal Wire.decodeTaskStatus (Wire.encodeTaskStatus (wireStatus parse s))).map
      (seenStatus render) = .ok s
  | .task t => (unmarshal Wire.decodeTask (Wire.encodeTask (wireTask parse t))).map
      (seenTask render) = .ok t

/-- A payload without other metadata. -/
def Plain : Payload → Prop
  | .status s => ∀ m ∈ s.message, Canonical m.metadata
  | .task t => (∀ m ∈ t.status.message, Canonical m.metadata) ∧ Canonical t.metadata

/-- The numbers of a payload have at most 53 bits. -/
def PayloadFits : Payload → Prop
  | .status s => ∀ m ∈ s.message, MetadataFits m.metadata
  | .task t => (∀ m ∈ t.status.message, MetadataFits m.metadata) ∧ MetadataFits t.metadata

/-- If a call is a publication, then of a plain payload. -/
def PublishesPlain : Op → Prop
  | .publish _ payload => Plain payload
  | _ => True

section Handle

variable {parse render} {cfg : Config} {taskID : String}

theorem Plain.arrives {payload : Payload} (h : Plain payload)
    (fits : PayloadFits payload) : Arrives parse render payload := by
  cases payload with
  | status s =>
    simp [Arrives, unmarshal, Wire.decode_status (fits_status h fits), Except.map,
      seen_status h]
  | task t =>
    simp [Arrives, unmarshal, Wire.decode_task (fits_task h.1 h.2 fits.1 fits.2),
      Except.map, seen_task h.1 h.2]

theorem canonical_nil : Canonical [] := ⟨.nil, by simp⟩

/-- The metadata of a task: the usage record comes before the trace ID. -/
theorem canonical_taskMetadata (metrics : Option Metrics) (id : Option String) :
    Canonical ((metrics.map fun m => ("contextUsage", contextUsage m)).toList ++
      (id.map fun id => ("trace_id", Value.str id)).toList) := by
  constructor
  · have order : "contextUsage" < "trace_id" := by decide
    cases metrics with
    | none => cases id <;> simp
    | some m =>
      cases id with
      | none => simp
      | some id => exact List.pairwise_pair.mpr order
  · cases metrics <;> cases id <;> simp [contextUsage]

theorem plain_tracked {p : Proc Unit} (h : Calls PublishesPlain p) :
    Calls PublishesPlain (tracked cfg p) := by
  unfold tracked
  split_ifs
  · exact h
  · exact calls_pure _

theorem plain_publishStatus {state : TaskState} {message : Option Message}
    (h : ∀ m ∈ message, m.metadata = []) :
    Calls PublishesPlain (publishStatus cfg taskID state message) := by
  have plain : ∀ m ∈ message, Canonical m.metadata := fun m hm => h m hm ▸ canonical_nil
  unfold publishStatus
  split_ifs
  · exact (calls_perform trivial).bind fun _ => (calls_perform plain).bind fun _ => calls_pure _
  · exact calls_pure _

theorem plain_fail (err : GoError) : Calls PublishesPlain (fail cfg taskID err) :=
  (plain_publishStatus (by simp [failMsg])).bind fun _ => calls_pure _

theorem plain_publishTask {content : String} {task : Task} (h : Plain (.task task)) :
    Calls PublishesPlain (publishTask cfg taskID content task) := by
  have plain : PublishesPlain (.publish ("agent.results." ++ taskID) (.task task)) := h
  refine Calls.bind ?_ fun err => ?_
  · unfold publishResult
    split_ifs
    · exact (calls_perform plain).bind fun _ => calls_pure _
    · exact calls_pure _
  · cases err with
    | some err => exact calls_pure _
    | none => exact (plain_publishStatus (by simp [resultMessage])).bind fun _ => calls_pure _

/-- A program that goes on with the metadata of the task. -/
theorem plain_taskMetadata {α : Type} {sessionID : String} {f : Metadata → Proc α}
    (h : ∀ metadata, Canonical metadata → Calls PublishesPlain (f metadata)) :
    Calls PublishesPlain (taskMetadata cfg sessionID >>= f) := by
  have stamp : ∀ metrics : Option Metrics, Calls PublishesPlain (traceID >>= fun id =>
      f ((metrics.map fun m => ("contextUsage", contextUsage m)).toList ++
        (id.map fun id => ("trace_id", Value.str id)).toList)) := fun metrics =>
    (calls_perform trivial).bind fun id => h _ (canonical_taskMetadata metrics id)
  unfold taskMetadata usageMetadata
  split_ifs
  · exact ⟨trivial, stamp⟩
  · exact stamp none

theorem plain_runSession (req : SendMessageRequest) (sessionID : String) :
    Calls PublishesPlain (runSession cfg req taskID sessionID) := by
  refine (plain_tracked (calls_perform trivial)).bind fun _ => ?_
  dsimp only
  split_ifs
  · exact plain_fail _
  · refine (calls_perform trivial).bind fun answer => ?_
    cases answer with
    | error err => exact plain_fail _
    | ok content =>
      refine (plain_tracked (calls_perform trivial)).bind fun _ =>
        (calls_perform trivial).bind fun _ => plain_taskMetadata fun metadata hmetadata =>
          plain_publishTask ⟨?_, hmetadata⟩
      simp [buildTask, resultMessage, canonical_nil]

theorem plain_handle (data : Except GoError SendMessageRequest) :
    Calls PublishesPlain (handle cfg data) := by
  refine (calls_perform trivial).bind fun accepted => ?_
  cases accepted with
  | false => exact calls_pure _
  | true =>
    refine Calls.bind ?_ fun _ => (calls_perform trivial).bind fun _ => calls_pure _
    cases data with
    | error err => exact calls_pure _
    | ok req =>
      refine (plain_publishStatus (by simp)).bind fun _ => (calls_perform trivial).bind
        fun initErr => ?_
      cases initErr with
      | some err => exact plain_fail _
      | none =>
        refine (calls_perform trivial).bind fun session => ?_
        cases session with
        | error err => exact plain_fail _
        | ok sessionID =>
          exact (calls_perform trivial).bind fun _ => (plain_runSession req sessionID).bind
            fun _ => (calls_perform trivial).bind fun _ =>
              (plain_tracked (calls_perform trivial)).bind fun _ => calls_pure _

theorem seen_request {r : SendMessageRequest} (h : Canonical r.message.metadata) :
    seenRequest render (wireRequest parse r) = r := by
  simp [seenRequest, wireRequest, seen_message h]

end Handle

/-- What `Handle` is given when it gets the document of a request. -/
def received (req : SendMessageRequest) : Except GoError SendMessageRequest :=
  (unmarshal Wire.decodeRequest (Wire.encodeRequest (wireRequest parse req))).map
    (seenRequest render)

/-- The dispatcher's request is what the worker's handler works on, and whatever the handler
publishes is what is read from it. -/
theorem messages_arrive (env : DispatchEnv) (spec : TaskSpec) (contextID : String)
    (canonical : Canonical spec.metadata) (fits : MetadataFits spec.metadata)
    (subject : String) (req : SendMessageRequest)
    (dispatched : (subject, req) ∈ (dispatch env spec contextID).1) :
    received parse render req = .ok req ∧
      ∀ cfg es result, (handle cfg (received parse render req)).replay es = some result →
        ∀ publication ∈ publications es, PayloadFits publication.2.1 →
          Arrives parse render publication.2.1 := by
  have arrives : received parse render req = .ok req := by
    obtain ⟨err, stopped⟩ | ⟨id, subject', -, -, published, -⟩ := dispatch_cases env spec contextID
    · simp [stopped] at dispatched
    · rw [published, List.mem_singleton] at dispatched
      cases dispatched
      have seen : seenRequest render (wireRequest parse (buildRequest spec id contextID)) =
        buildRequest spec id contextID := seen_request canonical
      have read : Wire.decodeRequest
          [Wire.encodeRequest (wireRequest parse (buildRequest spec id contextID))] =
        .ok (wireRequest parse (buildRequest spec id contextID)) :=
        Wire.decode_request (fits_request canonical fits)
      rw [received, unmarshal, read, Except.map, seen]
  refine ⟨arrives, ?_⟩
  intro cfg es result h publication hmem small
  obtain ⟨e, he, hpublication⟩ := List.mem_filterMap.mp hmem
  have plain := (plain_handle _).replay h e he
  obtain ⟨op, ans⟩ := e
  cases op with
  | publish subject payload =>
    cases hpublication
    exact plain.arrives small
  | _ => cases hpublication

/-- A task with a trace ID, for an agent that is found. -/
def traced : TaskSpec where
  id := "t-1"
  prompt := "hello"
  metadata := [("trace_id", .str "4bf92f35")]

def found : DispatchEnv where
  generateID := .ok "0"
  routeByScore _ _ := .ok "agent.tasks.coder"
  publishJSON _ _ := none

theorem messages_arrive_traced :
    received (fun _ => .null) (fun _ => "") (buildRequest traced "t-1" "c-1") =
      .ok (buildRequest traced "t-1" "c-1") := by
  refine (messages_arrive _ _ found traced "c-1" ?_ ?_ "agent.tasks.coder" _ ?_).1
  · exact ⟨List.pairwise_singleton _ _, by simp [traced]⟩
  · simp [MetadataFits, FitsFloat, traced]
  · simp [dispatch, chooseID, traced, found]

end Daedalus.Pipeline.Transport
