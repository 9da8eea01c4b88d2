import Daedalus.Dispatch.Dispatcher
import Daedalus.Orchestrator.Safety
import Daedalus.Proxy.Handler

/-!
# One identity per task

The ID that `Dispatch` returns travels as the task ID and the message ID of the request, as the last
part of the subjects the proxy publishes on and as the ID inside the published task, and is taken
out again on the other side. Here dispatcher, proxies and collector are one system: requests are
delivered any number of times, every delivery is a `Handle` call that advances one call at a time
and may stop anywhere, and whatever it publishes may reach the collector at any later time, in any
order, and more than once. Other parties publish what they like.

Requests, tasks and statuses cross the wire as JSON. A string that is not valid UTF-8 does not
survive that; `json` is what becomes of a string.
-/
namespace Daedalus.Pipeline

open Foundation A2A Dispatch Orchestrator Proxy Prog

/-! ## Across the wire -/

section Recode

variable (json : String → String)

def recodePart (part : Part) : Part where
  text := json part.text

def recodeValue : Value → Value
  | .str text => .str (json text)
  | value => value

def recodeMetadata (metadata : Metadata) : Metadata :=
  metadata.map fun entry => (json entry.1, recodeValue json entry.2)

def recodeMessage (m : Message) : Message where
  messageID := json m.messageID
  contextID := json m.contextID
  taskID := json m.taskID
  role := json m.role
  parts := m.parts.map (recodePart json)
  metadata := recodeMetadata json m.metadata

def recodeRequest (req : SendMessageRequest) : SendMessageRequest where
  message := recodeMessage json req.message

/-- The proxy's states are constants, which JSON leaves alone. -/
def recodeStatus (status : TaskStatus) : TaskStatus where
  state := status.state
  message := status.message.map (recodeMessage json)
  timestamp := json status.timestamp

def recodeTask (task : Task) : Task where
  id := json task.id
  contextID := json task.contextID
  status := recodeStatus json task.status
  artifacts := task.artifacts.map fun artifact =>
    { artifactID := json artifact.artifactID
      name := json artifact.name
      parts := artifact.parts.map (recodePart json) }
  metadata := recodeMetadata json task.metadata

end Recode

/-- A message as one of the collector's two subscriptions gets it: its subject and what its data
decodes to. -/
inductive Packet where
  | result (subject : String) (data : Option Task)
  | status (subject : String) (data : Option TaskStatus)

/-- The subject decides about the subscription; the proxy publishes tasks on result subjects and
statuses on status subjects only. -/
def packet (json : String → String) (subject : String) : Payload → Packet
  | .task task => .result subject (some (recodeTask json task))
  | .status status => .status subject (some (recodeStatus json status))

/-- The handling of the packet with the given number. -/
def Packet.act (number : ℕ) : Packet → Orchestrator.Act
  | .result subject data => .handleResult ⟨subject, data, number⟩
  | .status subject data => .handleStatus ⟨subject, data, number⟩

/-! ## The system -/

structure Wire where
  /-- The IDs that `Dispatch` returned, each with the request it published. -/
  tasks : List (String × SendMessageRequest)
  /-- The `Handle` calls: the number of the task, and what is left to do. -/
  workers : List (ℕ × Proc (Except GoError Unit))
  /-- Everything that was published for the collector, with the number of the task when a `Handle`
  call for it did. -/
  bus : List (Option ℕ × Packet)
  collector : Collector

namespace Wire

def new : Wire where
  tasks := []
  workers := []
  bus := []
  collector := .new

inductive Act where
  /-- A `Dispatch` call. When it fails, what it may have sent is left to the others. -/
  | dispatch (env : DispatchEnv) (spec : TaskSpec) (contextID : String)
  /-- A request is delivered to a proxy, -/
  | deliver (k : ℕ) (cfg : Config)
  /-- whose `Handle` makes its next call. -/
  | work (j : ℕ) (e : Event Ans)
  /-- Somebody else publishes. -/
  | others (p : Packet)
  /-- The collector gets a message. -/
  | receive (number : ℕ)
  /-- A step of the collector that takes no message. -/
  | collect (a : Orchestrator.Act)

def takesMessage : Orchestrator.Act → Bool
  | .handleResult _ => true
  | .handleStatus _ => true
  | _ => false

/-- What a call of `Handle` puts on the bus. -/
def emitted (json : String → String) (k : ℕ) : Event Ans → List (Option ℕ × Packet)
  | ⟨.publish subject payload, p⟩ =>
    if p.sent then [(some k, packet json subject payload)] else []
  | _ => []

def step (json : String → String) (w : Wire) : Act → Option Wire
  | .dispatch env spec contextID =>
    match dispatch env spec contextID with
    | (published, .ok (taskID, _)) =>
      some { w with tasks := w.tasks ++ published.map fun p => (taskID, p.2) }
    | (_, .error _) => some w
  | .deliver k cfg =>
    w.tasks[k]?.map fun task =>
      { w with workers := w.workers ++ [(k, handle cfg (.ok (recodeRequest json task.2)))] }
  | .work j e =>
    w.workers[j]?.bind fun worker => (worker.2.advance e).map fun rest =>
      { w with
        workers := w.workers.set j (worker.1, rest)
        bus := w.bus ++ emitted json worker.1 e }
  | .others p => some { w with bus := w.bus ++ [(none, p)] }
  | .receive number =>
    w.bus[number]?.bind fun entry =>
      (Orchestrator.step w.collector (entry.2.act number)).map fun collector =>
        { w with collector }
  | .collect a =>
    if takesMessage a then none
    else (Orchestrator.step w.collector a).map fun collector => { w with collector }

/-- The ID that the `k`-th `Dispatch` returned. -/
def idOf (w : Wire) (k : ℕ) : Option String := w.tasks[k]?.map (·.1)

/-- The ID of the task that a message was published for, unless somebody else published it. -/
def taskOf (w : Wire) (number : ℕ) : Option String :=
  w.bus[number]?.bind fun entry => entry.1.bind w.idOf

/-- A step dispatches, delivers, works, publishes or moves the collector. -/
theorem step_cases {json : String → String} {w v : Wire} {a : Act} (h : step json w a = some v) :
    (∃ taskID subject env spec contextID, a = .dispatch env spec contextID ∧
      (Dispatch.dispatch env spec contextID).2 = .ok (taskID, subject) ∧
      v = { w with tasks := w.tasks ++ [(taskID, buildRequest spec taskID contextID)] }) ∨
    (∃ k cfg task, a = .deliver k cfg ∧ w.tasks[k]? = some task ∧
      v = { w with
        workers := w.workers ++ [(k, handle cfg (.ok (recodeRequest json task.2)))] }) ∨
    (∃ j e k p q, a = .work j e ∧ w.workers[j]? = some (k, p) ∧ p.advance e = some q ∧
      v = { w with workers := w.workers.set j (k, q), bus := w.bus ++ emitted json k e }) ∨
    (∃ p, a = .others p ∧ v = { w with bus := w.bus ++ [(none, p)] }) ∨
    (∃ b collector, Orchestrator.step w.collector b = some collector ∧ v = { w with collector } ∧
      (b.builds = none ∨ ∃ number entry, a = .receive number ∧ w.bus[number]? = some entry ∧
        b = entry.2.act number)) ∨
    v = w := by
  cases a with
  | dispatch env spec contextID =>
    simp only [step] at h
    split at h
    · rename_i published taskID subject hd
      cases h
      have ok : (Dispatch.dispatch env spec contextID).2 = .ok (taskID, subject) := by rw [hd]
      have once := (dispatch_ok ok).2
      rw [hd] at once
      obtain rfl : published = _ := once
      exact .inl ⟨taskID, subject, env, spec, contextID, rfl, ok, rfl⟩
    · cases h
      simp
  | deliver k cfg =>
    obtain ⟨task, htask, rfl⟩ := Option.map_eq_some_iff.mp h
    exact .inr (.inl ⟨k, cfg, task, rfl, htask, rfl⟩)
  | work j e =>
    simp only [step, Option.bind_eq_some_iff, Option.map_eq_some_iff] at h
    obtain ⟨⟨k, p⟩, hworker, q, hq, rfl⟩ := h
    exact .inr (.inr (.inl ⟨j, e, k, p, q, rfl, hworker, hq, rfl⟩))
  | others p =>
    cases h
    exact .inr (.inr (.inr (.inl ⟨p, rfl, rfl⟩)))
  | receive number =>
    simp only [step, Option.bind_eq_some_iff, Option.map_eq_some_iff] at h
    obtain ⟨entry, hentry, collector, hcollector, rfl⟩ := h
    exact .inr (.inr (.inr (.inr (.inl
      ⟨_, collector, hcollector, rfl, .inr ⟨number, entry, rfl, hentry, rfl⟩⟩))))
  | collect b =>
    simp only [step] at h
    split_ifs at h with takes
    obtain ⟨collector, hcollector, rfl⟩ := Option.map_eq_some_iff.mp h
    refine .inr (.inr (.inr (.inr (.inl ⟨b, collector, hcollector, rfl, .inl ?_⟩))))
    cases b with
    | handleResult | handleStatus => exact absurd rfl takes
    | _ => rfl

end Wire

/-! ## Packets of a task -/

/-- The subject of the packet names the task, and so does a task inside. -/
def Packet.For (id : String) : Packet → Prop
  | .result subject data => subject = "agent.results." ++ id ∧ ∀ task ∈ data, task.id = id
  | .status subject _ => subject = "agent.status." ++ id

/-- The result is kept under the ID, and a task inside has it too. -/
def Named (id : String) (r : TaskResult) : Prop := r.taskID = id ∧ ∀ task ∈ r.task, task.id = id

/-- Both receive paths of the collector find the ID again. -/
theorem Packet.For.named {id : String} {p : Packet} (h : p.For id) {number : ℕ} {r : TaskResult}
    (hr : (p.act number).builds = some r) : Named id r := by
  cases p with
  | result subject data =>
    obtain ⟨rfl, own⟩ := h
    cases data with
    | none => simp [Packet.act, Orchestrator.Act.builds, receiveResult] at hr
    | some task =>
      have hid : task.id = id := own task rfl
      obtain ⟨-, htask, -, htaskID⟩ := receiveResult_spec rfl hr
      constructor
      · rw [htaskID, hid, extractSuffix_append, ite_self]
      · rw [htask]
        rintro _ ⟨⟩
        exact hid
  | status subject data =>
    obtain rfl := h
    cases data with
    | none => simp [Packet.act, Orchestrator.Act.builds, receiveStatus] at hr
    | some status =>
      obtain ⟨-, rfl⟩ := receiveStatus_spec rfl hr
      exact ⟨extractSuffix_append _ _, by simp⟩

theorem Packet.origin {p : Packet} {number : ℕ} {r : TaskResult}
    (hr : (p.act number).builds = some r) : r.origin = number := by
  cases p with
  | result subject data =>
    cases data with
    | none => simp [Packet.act, Orchestrator.Act.builds, receiveResult] at hr
    | some task => exact (receiveResult_spec rfl hr).2.2.1
  | status subject data =>
    cases data with
    | none => simp [Packet.act, Orchestrator.Act.builds, receiveStatus] at hr
    | some status => exact (receiveStatus_spec rfl hr).2 ▸ rfl

theorem emitted_owner {json : String → String} {k : ℕ} {e : Event Ans} :
    ∀ entry ∈ Wire.emitted json k e, entry.1 = some k := by
  intro entry hentry
  unfold Wire.emitted at hentry
  split at hentry
  · split_ifs at hentry
    · rw [List.mem_singleton.mp hentry]
    · cases hentry
  · cases hentry

/-- Every publication of a call for the task becomes a packet for the task. -/
theorem emitted_for {json : String → String} {id : String} {k : ℕ} {cfg : Config} {e : Event Ans}
    (survives : json id = id) (h : Addressed cfg id e.op) :
    ∀ entry ∈ Wire.emitted json k e, entry.2.For id := by
  obtain ⟨op, ans⟩ := e
  cases op with
  | publish subject payload =>
    intro entry hentry
    simp only [Wire.emitted] at hentry
    split_ifs at hentry with sent
    · obtain rfl := List.mem_singleton.mp hentry
      cases payload with
      | status status => exact h.2
      | task task =>
        refine ⟨h.2.1, ?_⟩
        rintro _ ⟨⟩
        change json task.id = id
        rw [h.2.2, survives]
    · cases hentry
  | _ =>
    intro entry hentry
    cases hentry

/-! ## The invariant -/

namespace Wire

variable {json : String → String} {w v : Wire}

/-- A `Handle` call publishes for the task it was started for. -/
def Works (json : String → String) (w : Wire) (worker : ℕ × Proc (Except GoError Unit)) : Prop :=
  ∃ id, w.idOf worker.1 = some id ∧ (json id = id → ∃ cfg, Calls (Addressed cfg id) worker.2)

/-- What was published for a task is a packet for it. -/
def Carries (json : String → String) (w : Wire) (entry : Option ℕ × Packet) : Prop :=
  ∀ k, entry.1 = some k → ∃ id, w.idOf k = some id ∧ (json id = id → entry.2.For id)

/-- The result was built from a message on the bus, and if that was published for a task, it is
kept for this task. -/
def Traced (json : String → String) (w : Wire) (r : TaskResult) : Prop :=
  r.origin < w.bus.length ∧ ∀ id, w.taskOf r.origin = some id → json id = id → Named id r

structure Inv (json : String → String) (w : Wire) : Prop where
  collector : Orchestrator.Inv w.collector
  /-- The request of a task has its ID in both places. -/
  requests : ∀ task ∈ w.tasks, ∃ spec contextID, task.2 = buildRequest spec task.1 contextID
  workers : ∀ worker ∈ w.workers, Works json w worker
  bus : ∀ entry ∈ w.bus, Carries json w entry
  holds : Holds (Traced json w) w.collector

theorem Inv.new : Inv json .new :=
  ⟨.new, by simp [Wire.new], by simp [Wire.new], by simp [Wire.new], .new⟩

section Growth

variable (tasks : w.tasks <+: v.tasks) (bus : w.bus <+: v.bus)

include tasks in
theorem idOf_mono {k : ℕ} {id : String} (h : w.idOf k = some id) : v.idOf k = some id := by
  obtain ⟨task, htask, rfl⟩ := Option.map_eq_some_iff.mp h
  obtain ⟨hlt, rfl⟩ := List.getElem?_eq_some_iff.mp htask
  exact Option.map_eq_some_iff.mpr ⟨_, List.prefix_iff_getElem?.mp tasks k hlt, rfl⟩

include tasks in
theorem Works.mono {worker : ℕ × Proc (Except GoError Unit)} (h : Works json w worker) :
    Works json v worker := by
  obtain ⟨id, hid, hcalls⟩ := h
  exact ⟨id, idOf_mono tasks hid, hcalls⟩

include tasks in
theorem Carries.mono {entry : Option ℕ × Packet} (h : Carries json w entry) :
    Carries json v entry := by
  intro k hk
  obtain ⟨id, hid, hfor⟩ := h k hk
  exact ⟨id, idOf_mono tasks hid, hfor⟩

include tasks bus in
/-- A message that is on the bus keeps its task. -/
theorem Traced.mono (h : Inv json w) {r : TaskResult} (hr : Traced json w r) :
    Traced json v r := by
  obtain ⟨old, named⟩ := hr
  refine ⟨old.trans_le bus.length_le, fun id hid survives => named id ?_ survives⟩
  simp only [taskOf, List.prefix_iff_getElem?.mp bus _ old, List.getElem?_eq_getElem old,
    Option.bind_some] at hid ⊢
  obtain ⟨k, hk, hid⟩ := Option.bind_eq_some_iff.mp hid
  obtain ⟨id', hid', -⟩ := h.bus _ (List.getElem_mem old) k hk
  obtain rfl : id' = id := Option.some.inj ((idOf_mono tasks hid').symm.trans hid)
  exact Option.bind_eq_some_iff.mpr ⟨k, hk, hid'⟩

end Growth

/-- What is left to check when tasks, calls and messages are added. -/
theorem Inv.grow (h : Inv json w) (tasks : w.tasks <+: v.tasks) (bus : w.bus <+: v.bus)
    (hcollector : v.collector = w.collector)
    (requests : ∀ task ∈ v.tasks, task ∈ w.tasks ∨
      ∃ spec contextID, task.2 = buildRequest spec task.1 contextID)
    (workers : ∀ worker ∈ v.workers, worker ∈ w.workers ∨ Works json v worker)
    (entries : ∀ entry ∈ v.bus, entry ∈ w.bus ∨ Carries json v entry) : Inv json v where
  collector := hcollector ▸ h.collector
  requests task htask := (requests task htask).elim (h.requests task) id
  workers worker hworker :=
    (workers worker hworker).elim (fun hold => (h.workers worker hold).mono tasks) id
  bus entry hentry := (entries entry hentry).elim (fun hold => (h.bus entry hold).mono tasks) id
  holds := by
    rw [hcollector]
    exact h.holds.mono fun r hr => hr.mono tasks bus h

/-- A delivered request is handled for the ID that was returned for it. -/
theorem Works.delivered {k : ℕ} {task : String × SendMessageRequest}
    (htask : w.tasks[k]? = some task)
    (own : ∃ spec contextID, task.2 = buildRequest spec task.1 contextID) (cfg : Config) :
    Works json w (k, handle cfg (.ok (recodeRequest json task.2))) := by
  obtain ⟨spec, contextID, hreq⟩ := own
  refine ⟨task.1, Option.map_eq_some_iff.mpr ⟨task, htask, rfl⟩, fun survives => ⟨cfg, ?_⟩⟩
  have chosen : chooseTaskID (recodeRequest json task.2) = task.1 := by
    simp [chooseTaskID, recodeRequest, recodeMessage, hreq, buildRequest, survives]
  rw [← chosen]
  exact addressed_handle

/-- What is built from a message of a task is named after the task. -/
theorem Inv.named (h : Inv json w) {number : ℕ} {entry : Option ℕ × Packet} {id : String}
    {r : TaskResult} (hentry : w.bus[number]? = some entry) (hid : w.taskOf number = some id)
    (survives : json id = id) (hr : (entry.2.act number).builds = some r) : Named id r := by
  simp only [taskOf, hentry, Option.bind_some, Option.bind_eq_some_iff] at hid
  obtain ⟨k, hk, hid⟩ := hid
  obtain ⟨id', hid', hfor⟩ := h.bus entry (List.mem_of_getElem? hentry) k hk
  obtain rfl : id' = id := Option.some.inj (hid'.symm.trans hid)
  exact (hfor survives).named hr

theorem Inv.step (h : Inv json w) {a : Act} (hs : step json w a = some v) : Inv json v := by
  obtain ⟨taskID, _, _, spec, contextID, -, -, rfl⟩ | ⟨k, cfg, task, -, htask, rfl⟩ |
    ⟨j, e, k, p, q, -, hworker, hq, rfl⟩ | ⟨p, -, rfl⟩ | ⟨b, collector, hb, rfl, source⟩ | rfl :=
    step_cases hs
  · refine h.grow (List.prefix_append _ _) List.prefix_rfl rfl ?_ (fun _ => .inl) fun _ => .inl
    intro task htask
    refine (List.mem_append.mp htask).imp_right fun hnew => ?_
    obtain rfl := List.mem_singleton.mp hnew
    exact ⟨spec, contextID, rfl⟩
  · refine h.grow List.prefix_rfl List.prefix_rfl rfl (fun _ => .inl) ?_ fun _ => .inl
    intro worker hworker
    refine (List.mem_append.mp hworker).imp_right fun hnew => ?_
    obtain rfl := List.mem_singleton.mp hnew
    exact Works.delivered htask (h.requests task (List.mem_of_getElem? htask)) cfg
  · -- One call of `Handle`: the rest still works for the task, and so did the call.
    obtain ⟨id, hid, calls⟩ := h.workers _ (List.mem_of_getElem? hworker)
    refine h.grow List.prefix_rfl (List.prefix_append _ _) rfl (fun _ => .inl) ?_ ?_
    · intro worker hmem
      refine (List.mem_or_eq_of_mem_set hmem).imp_right ?_
      rintro rfl
      refine ⟨id, hid, fun survives => ?_⟩
      obtain ⟨cfg, hcalls⟩ := calls survives
      exact ⟨cfg, (hcalls.advance hq).2⟩
    · intro entry hentry
      refine (List.mem_append.mp hentry).imp_right fun hnew k' hk' => ?_
      obtain rfl : k = k' := Option.some.inj ((emitted_owner entry hnew).symm.trans hk')
      refine ⟨id, hid, fun survives => ?_⟩
      obtain ⟨cfg, hcalls⟩ := calls survives
      exact emitted_for survives (hcalls.advance hq).1 entry hnew
  · refine h.grow List.prefix_rfl (List.prefix_append _ _) rfl (fun _ => .inl) (fun _ => .inl) ?_
    intro entry hentry
    refine (List.mem_append.mp hentry).imp_right fun hnew k hk => ?_
    obtain rfl := List.mem_singleton.mp hnew
    cases hk
  · refine ⟨h.collector.step hb, h.requests, h.workers, h.bus, h.holds.step h.collector ?_ hb⟩
    intro r hr
    rcases source with hnone | ⟨number, entry, -, hentry, rfl⟩
    · rw [hnone] at hr
      cases hr
    · have horigin : r.origin = number := Packet.origin hr
      refine ⟨horigin ▸ (List.getElem?_eq_some_iff.mp hentry).1, fun id hid survives => ?_⟩
      change w.taskOf r.origin = some id at hid
      exact h.named hentry (horigin ▸ hid) survives hr
  · exact h

theorem Inv.run {acts : List Act} (h : Foundation.run (Wire.step json) .new acts = some w) :
    Inv json w :=
  run_invariant (Inv json) (fun _ _ _ hw hs => hw.step hs) h .new

end Wire

/-! ## What the IDs identify -/

/-- In a state of the system, for the tasks whose ID survives JSON: -/
structure OneIdentity (json : String → String) (w : Wire) : Prop where
  /-- What the collector builds from a message of a task, it keeps under the task's ID, and a task
  inside has this ID too. -/
  keyed : ∀ number entry id r, w.bus[number]? = some entry → w.taskOf number = some id →
    json id = id → (entry.2.act number).builds = some r → Named id r
  /-- So the results of a task are stored under its ID, -/
  stored : ∀ key r id, w.collector.results key = some r → w.taskOf r.origin = some id →
    json id = id → key = id ∧ Named id r
  /-- are sent to calls for its ID, -/
  notified : ∀ c r id, w.collector.chan c = some r → w.taskOf r.origin = some id →
    json id = id → Named id r ∧ ∃ phase, w.collector.calls c = some ⟨id, phase⟩
  /-- and are returned by them and by no others. -/
  returned : ∀ c key r id, w.collector.calls c = some ⟨key, .returned (.ok r)⟩ →
    w.taskOf r.origin = some id → json id = id → key = id ∧ Named id r
  /-- Storing what was built from a message of a task unblocks all calls for its ID, -/
  unblocks : ∀ number entry id r, w.bus[number]? = some entry → w.taskOf number = some id →
    json id = id → (entry.2.act number).builds = some r →
    ∀ c, w.collector.calls c = some ⟨id, .blocked⟩ → (w.collector.storeAndNotify r).chan c ≠ none
  /-- and changes nothing for the others. -/
  confined : ∀ number entry id r, w.bus[number]? = some entry → w.taskOf number = some id →
    json id = id → (entry.2.act number).builds = some r → ∀ key, key ≠ id →
      (w.collector.storeAndNotify r).results key = w.collector.results key ∧
      (w.collector.storeAndNotify r).waiters key = w.collector.waiters key ∧
      ∀ c phase, w.collector.calls c = some ⟨key, phase⟩ →
        (w.collector.storeAndNotify r).chan c = w.collector.chan c
  /-- Tasks with different IDs do not share a key. -/
  apart : ∀ number number' entry entry' id id' r r', w.bus[number]? = some entry →
    w.bus[number']? = some entry' → w.taskOf number = some id → w.taskOf number' = some id' →
    json id = id → json id' = id' → (entry.2.act number).builds = some r →
    (entry'.2.act number').builds = some r' → r.taskID = r'.taskID → id = id'

/-- Storing fills the channel of every blocked call for the task. -/
theorem storeAndNotify_awake {s : Collector} (h : Orchestrator.Inv s) {c : ℕ} {r : TaskResult}
    (hcall : s.calls c = some ⟨r.taskID, .blocked⟩) : (s.storeAndNotify r).chan c ≠ none := by
  rw [storeAndNotify_chan]
  split_ifs with hand
  · simp
  · rcases h.awake c _ hcall with listed | full
    · intro hnone
      exact hand ⟨listed, hnone⟩
    · exact full

/-- Storing leaves the channels of calls for other tasks alone. -/
theorem storeAndNotify_apart {s : Collector} (h : Orchestrator.Inv s) {c : ℕ} {r : TaskResult}
    {key : String} {phase : Orchestrator.Phase} (hcall : s.calls c = some ⟨key, phase⟩)
    (hne : key ≠ r.taskID) :
    (s.storeAndNotify r).chan c = s.chan c := by
  rw [storeAndNotify_chan, if_neg]
  rintro ⟨listed, -⟩
  obtain ⟨-, _, hcall', -⟩ := h.listed _ c listed
  rw [hcall] at hcall'
  cases hcall'
  exact hne rfl

/-- Dispatcher, proxies and collector agree on the ID of every task, whatever the IDs are, however
often and on whatever paths a request is handled, and whatever others publish. -/
theorem one_identity {json : String → String} {acts : List Wire.Act} {w : Wire}
    (h : run (Wire.step json) .new acts = some w) : OneIdentity json w := by
  have inv := Wire.Inv.run h
  constructor
  · intro number entry id r hentry hid survives hr
    exact inv.named hentry hid survives hr
  · intro key r id hr hid survives
    obtain ⟨hkey, -, named⟩ := inv.holds.results key r hr
    have hnamed := named id hid survives
    exact ⟨hkey ▸ hnamed.1, hnamed⟩
  · intro c r id hr hid survives
    obtain ⟨⟨-, named⟩, phase, hcall⟩ := inv.holds.chan c r hr
    have hnamed := named id hid survives
    exact ⟨hnamed, phase, hnamed.1 ▸ hcall⟩
  · intro c key r id hr hid survives
    obtain ⟨hkey, -, named⟩ := inv.holds.returned c key r hr
    have hnamed := named id hid survives
    exact ⟨hkey ▸ hnamed.1, hnamed⟩
  · intro number entry id r hentry hid survives hr c hcall
    obtain ⟨rfl, -⟩ := inv.named hentry hid survives hr
    exact storeAndNotify_awake inv.collector hcall
  · intro number entry id r hentry hid survives hr key hne
    obtain ⟨rfl, -⟩ := inv.named hentry hid survives hr
    refine ⟨?_, ?_, fun c phase hcall => storeAndNotify_apart inv.collector hcall hne⟩
    · rw [storeAndNotify_results, if_neg hne]
    · exact Function.update_of_ne hne _ _
  · intro number number' entry entry' id id' r r' hentry hentry' hid hid' survives survives' hr
      hr' e
    rw [← (inv.named hentry hid survives hr).1, ← (inv.named hentry' hid' survives' hr').1, e]

/-- An ID with dots in it that begins like a result subject. -/
def dotted : String := "agent.results.a.b"

/-- The task is dispatched and handled, its result reaches the collector before the working status
does, and a waiting call returns. -/
def dottedRun : List Wire.Act := [
  .dispatch ⟨.ok "1f", fun _ _ => .ok "agent.tasks.coder", fun _ _ => none⟩
    { id := dotted, prompt := "hi" } "c",
  .deliver 0 {},
  .work 0 ⟨.enter, true⟩, .work 0 ⟨.now, "1"⟩,
  .work 0 ⟨.publish ("agent.status." ++ dotted) (.status { state := .working, timestamp := "1" }),
    .acked⟩,
  .work 0 ⟨.initOnce, none⟩, .work 0 ⟨.newSession, .ok "s"⟩, .work 0 ⟨.registerSession "s", ()⟩,
  .work 0 ⟨.prompt "s" "hi", .ok "hello"⟩, .work 0 ⟨.now, "2"⟩, .work 0 ⟨.traceID, none⟩,
  .work 0 ⟨.publish ("agent.results." ++ dotted) (.task (buildTask dotted "c" "hello" "2" [])),
    .acked⟩,
  .collect (.waitFor dotted), .receive 1, .receive 0, .collect (.receive 0)]

theorem one_identity_dotted :
    ∃ w, run (Wire.step id) .new dottedRun = some w ∧ w.taskOf 1 = some dotted ∧
      (w.collector.results dotted).map (·.origin) = some 1 ∧ OneIdentity id w := by
  have observed : (run (Wire.step id) .new dottedRun).map
      (fun w => (w.taskOf 1, (w.collector.results dotted).map (·.origin))) =
      some (some dotted, some 1) := by decide
  obtain ⟨w, hw, e⟩ := Option.map_eq_some_iff.mp observed
  obtain ⟨owned, stored⟩ := Prod.mk.inj e
  exact ⟨w, hw, owned, stored, one_identity hw⟩

end Daedalus.Pipeline
