import Daedalus.Pipeline.Freshness
import Daedalus.Proxy.Evidence

/-!
# From the request to the agents and back

`Pipeline.World` leaves open who answers the published requests. Here they are answered by proxies:
a request is delivered any number of times, each delivery is a `Handle` call that makes one call at
a time and may stop anywhere, and what it publishes reaches the collector at any later time, in any
order and any number of times. Nobody else publishes results or statuses, and texts are valid UTF-8,
so that JSON carries them unchanged.

The result is a refinement of the world. What it adds is where results come from: `answered`
observes the prompts that agents have answered, and every completed task stands for such an answer.
-/
namespace Daedalus.Pipeline

open Foundation A2A Dispatch Orchestrator Scheduler Proxy Prog

/-- The request of a session. -/
def World.reqOf (w : World) (k : ℕ) : Option ScheduleRequest := w.sessions[k]?.map (·.req)

/-- An agent's answer to the prompt of a published request. -/
structure Answer where
  number : ℕ
  prompt : String
  content : String

structure Factory where
  world : World
  /-- The published requests, numbered as in the log of the world. -/
  requests : List SendMessageRequest
  /-- The `Handle` calls: the number of the request, and what is left to do. -/
  workers : List (ℕ × Proc (Except GoError Unit))
  /-- What the `Handle` calls published, with the number of the request. -/
  bus : List (ℕ × String × Payload)

namespace Factory

def new : Factory where
  world := .new
  requests := []
  workers := []
  bus := []

inductive Act where
  /-- A step of the world in which no message is sent or received. -/
  | world (a : Pipeline.Act)
  | publish (k : ℕ) (id : String) (env : DispatchEnv)
  /-- A request is delivered to a proxy, -/
  | deliver (number : ℕ) (cfg : Config)
  /-- whose `Handle` makes its next call. -/
  | work (j : ℕ) (e : Event Ans)
  /-- The collector gets a message. -/
  | receive (i : ℕ)

def inside : Pipeline.Act → Bool
  | .publish _ _ _ | .result _ _ | .status _ _ => false
  | _ => true

/-- What a call of `Handle` puts on the bus. -/
def emitted (number : ℕ) : Event Ans → List (ℕ × String × Payload)
  | ⟨.publish subject payload, p⟩ => if p.sent then [(number, subject, payload)] else []
  | _ => []

/-- The subject decides about the subscription; the proxy publishes tasks on result subjects and
statuses on status subjects only. -/
def received (number : ℕ) (subject : String) : Payload → Orchestrator.Act
  | .task task => .handleResult ⟨subject, some task, number⟩
  | .status status => .handleStatus ⟨subject, some status, number⟩

def step (f : Factory) : Act → Option Factory
  | .world a =>
    if inside a then (Pipeline.step f.world a).map fun world => { f with world } else none
  | .publish k id env =>
    f.world.sessions[k]?.bind fun s =>
      (Pipeline.step f.world (.publish k id env)).map fun world =>
        { f with world, requests := f.requests ++ (dispatchTask s.req env id).1.map Prod.snd }
  | .deliver number cfg =>
    f.requests[number]?.map fun req =>
      { f with workers := f.workers ++ [(number, handle cfg (.ok req))] }
  | .work j e =>
    f.workers[j]?.bind fun worker => (worker.2.advance e).map fun rest =>
      { f with
        workers := f.workers.set j (worker.1, rest)
        bus := f.bus ++ emitted worker.1 e }
  | .receive i =>
    f.bus[i]?.bind fun entry =>
      (Orchestrator.step f.world.collector (received entry.1 entry.2.1 entry.2.2)).map
        fun collector => { f with world := { f.world with collector } }

/-- The answers of the agents. -/
def answered (f : Factory) : Act → List Answer
  | .work j ⟨.prompt _ prompt, .ok content⟩ =>
    (f.workers[j]?.map fun worker => ⟨worker.1, prompt, content⟩).toList
  | _ => []

end Factory

/-! ## What a step can do -/

/-- A request is published for a goroutine that is inside `Dispatch`. -/
theorem publish_cases {w v : World} {k : ℕ} {id : String} {env : DispatchEnv} {s : Session}
    (hk : w.sessions[k]? = some s) (h : step w (.publish k id env) = some v) :
    ∃ wave slots, s.state.pc = .dispatching wave slots ∧ slots id = .calling ∧
      v = { w.setSession k (s.answer id ((dispatchTask s.req env id).2.map Prod.fst)) with
        log := w.log ++ (dispatchTask s.req env id).1.map fun _ => (k, id) } := by
  simp only [step, hk, Option.bind_some] at h
  split at h
  · rename_i wave slots hpc _
    split at h
    · rename_i hslot
      cases h
      exact ⟨wave, slots, hpc, hslot, rfl⟩
    · cases h
  · cases h

namespace Factory

variable {f g : Factory}

/-- A step moves the world, publishes, delivers, works or hands a message to the collector. -/
theorem step_cases {a : Act} (h : step f a = some g) :
    (∃ b world, a = .world b ∧ inside b ∧ Pipeline.step f.world b = some world ∧
      g = { f with world }) ∨
    (∃ k id env s world, a = .publish k id env ∧ f.world.sessions[k]? = some s ∧
      Pipeline.step f.world (.publish k id env) = some world ∧
      g = { f with
        world, requests := f.requests ++ (dispatchTask s.req env id).1.map Prod.snd }) ∨
    (∃ number cfg req, a = .deliver number cfg ∧ f.requests[number]? = some req ∧
      g = { f with workers := f.workers ++ [(number, handle cfg (.ok req))] }) ∨
    (∃ j e number p q, a = .work j e ∧ f.workers[j]? = some (number, p) ∧ p.advance e = some q ∧
      g = { f with workers := f.workers.set j (number, q), bus := f.bus ++ emitted number e }) ∨
    (∃ i number subject payload collector, a = .receive i ∧
      f.bus[i]? = some (number, subject, payload) ∧
      Orchestrator.step f.world.collector (received number subject payload) = some collector ∧
      g = { f with world := { f.world with collector } }) := by
  cases a with
  | world b =>
    simp only [step] at h
    split_ifs at h with hb
    obtain ⟨world, hworld, rfl⟩ := Option.map_eq_some_iff.mp h
    exact .inl ⟨b, world, rfl, hb, hworld, rfl⟩
  | publish k id env =>
    simp only [step, Option.bind_eq_some_iff, Option.map_eq_some_iff] at h
    obtain ⟨s, hs, world, hworld, rfl⟩ := h
    exact .inr (.inl ⟨k, id, env, s, world, rfl, hs, hworld, rfl⟩)
  | deliver number cfg =>
    obtain ⟨req, hreq, rfl⟩ := Option.map_eq_some_iff.mp h
    exact .inr (.inr (.inl ⟨number, cfg, req, rfl, hreq, rfl⟩))
  | work j e =>
    simp only [step, Option.bind_eq_some_iff, Option.map_eq_some_iff] at h
    obtain ⟨⟨number, p⟩, hworker, q, hq, rfl⟩ := h
    exact .inr (.inr (.inr (.inl ⟨j, e, number, p, q, rfl, hworker, hq, rfl⟩)))
  | receive i =>
    simp only [step, Option.bind_eq_some_iff, Option.map_eq_some_iff] at h
    obtain ⟨⟨number, subject, payload⟩, hentry, collector, hcollector, rfl⟩ := h
    exact .inr (.inr (.inr (.inr
      ⟨i, number, subject, payload, collector, rfl, hentry, hcollector, rfl⟩)))

end Factory

/-! ## Worlds that grow -/

/-- The log grows, and sessions keep their requests. -/
structure World.Extends (w v : World) : Prop where
  log : w.log <+: v.log
  reqOf : ∀ k req, w.reqOf k = some req → v.reqOf k = some req

section Growth

variable {w v : World}

theorem World.Extends.refl (w : World) : w.Extends w := ⟨List.prefix_rfl, fun _ _ h => h⟩

theorem World.Extends.of_set {k : ℕ} {s u : Session} (hk : w.sessions[k]? = some s)
    (hsessions : v.sessions = w.sessions.set k u) (hreq : u.req = s.req) (hlog : w.log <+: v.log) :
    w.Extends v := by
  refine ⟨hlog, fun j req hj => ?_⟩
  unfold World.reqOf at hj ⊢
  obtain ⟨s', hs', rfl⟩ := Option.map_eq_some_iff.mp hj
  rw [hsessions, List.getElem?_set]
  split_ifs with e hlt
  · subst e
    obtain rfl := Option.some.inj (hk.symm.trans hs')
    simp [hreq]
  · subst e
    exact absurd (List.getElem?_eq_some_iff.mp hk).1 hlt
  · simp [hs']

theorem step_extends {a : Act} (hs : step w a = some v) : w.Extends v := by
  obtain ⟨req, order, d, -, hd, rfl⟩ | ⟨k, b, s, state, -, hk, -, -, rfl⟩ |
    ⟨k, id, env, s, -, hk, rfl⟩ | ⟨k, id, s, result, state, -, hk, -, -, rfl⟩ |
    ⟨k, id, s, pending, waitCh, dispID, -, hk, -, -, rfl⟩ |
    ⟨k, id, s, c, id', result, state, -, hk, -, -, -, rfl⟩ |
    ⟨b, collector, -, rfl, -⟩ := step_cases hs
  · refine ⟨List.prefix_rfl, fun k old hk => ?_⟩
    obtain ⟨s, hs, rfl⟩ := Option.map_eq_some_iff.mp hk
    have hlt := (List.getElem?_eq_some_iff.mp hs).1
    unfold World.reqOf
    rw [List.getElem?_append_left hlt, hs]
    rfl
  · exact .of_set hk rfl rfl List.prefix_rfl
  · exact .of_set hk rfl rfl (List.prefix_append _ _)
  · exact .of_set hk rfl rfl List.prefix_rfl
  · exact .of_set hk rfl rfl List.prefix_rfl
  · exact .of_set hk rfl rfl List.prefix_rfl
  · exact ⟨List.prefix_rfl, fun _ _ h => h⟩

/-- A step without messages leaves the log alone, and moves the collector on its own if at all. -/
theorem step_inside {a : Act} (hs : step w a = some v) (quiet : Factory.inside a) :
    v.log = w.log ∧ (v.collector = w.collector ∨
      ∃ b, b.builds = none ∧ Orchestrator.step w.collector b = some v.collector) := by
  obtain ⟨_, _, _, -, -, rfl⟩ | ⟨_, _, _, _, -, -, -, -, rfl⟩ | ⟨_, _, _, _, rfl, -, rfl⟩ |
    ⟨_, _, _, _, _, -, -, -, -, rfl⟩ | ⟨_, _, _, _, _, dispID, -, -, -, -, rfl⟩ |
    ⟨_, _, _, _, _, _, _, -, -, -, -, -, rfl⟩ | ⟨b, collector, hb, rfl, origin⟩ := step_cases hs
  case inr.inr.inl => cases quiet
  case inr.inr.inr.inr.inl => exact ⟨rfl, .inr ⟨.waitFor dispID, rfl, rfl⟩⟩
  case inr.inr.inr.inr.inr.inr =>
    obtain ⟨-, none⟩ | ⟨-, none⟩ | ⟨_, _, _, rfl, -⟩ | ⟨_, _, _, rfl, -⟩ := origin
    · exact ⟨rfl, .inr ⟨b, none, hb⟩⟩
    · exact ⟨rfl, .inr ⟨b, none, hb⟩⟩
    · cases quiet
    · cases quiet
  all_goals exact ⟨rfl, .inl rfl⟩

end Growth

/-! ## Sessions that record completed tasks for a reason -/

/-- A task is recorded as completed only if `P` holds of it. -/
structure Session.Justified (P : String → Prop) (s : Session) : Prop where
  inv : Scheduler.Inv s.req (fun id status => status = "completed" → P id) s.state
  placed : s.state.pc.Placed

section Sessions

variable {w v : World}

theorem Session.Justified.mono {P Q : String → Prop} {s : Session} (h : s.Justified P)
    (weaken : ∀ id, P id → Q id) : s.Justified Q :=
  ⟨h.inv.mono fun id _ ok completed => weaken id (ok completed), h.placed⟩

theorem Session.Justified.step {P : String → Prop} {s : Session} (h : s.Justified P)
    {b : Scheduler.Act} {state : State}
    (ok : b.Obeys fun id status => status = "completed" → P id)
    (hs : Scheduler.step s.req s.state b = some state) : Justified P { s with state } := by
  refine ⟨h.inv.step ok hs, ?_⟩
  obtain ⟨running, -⟩ | ⟨u, -, -, e⟩ := h.inv
  · exact h.placed.step running hs
  · rw [step_returned (congrArg State.pc e)] at hs
    cases hs

/-- A call that returns says completed only for a completed result. -/
theorem waitStatus_completed {result : Except GoError TaskResult}
    (h : waitStatus result = "completed") :
    ∃ r, result = .ok r ∧ outcomeStatus r.status = "completed" := by
  cases result with
  | error err =>
    unfold waitStatus at h
    dsimp only at h
    split_ifs at h <;> exact absurd h (by decide)
  | ok r => exact ⟨r, rfl, h⟩

/-- One step of the world keeps all sessions justified, if the completed results that calls return
are. -/
theorem justified_step {P : ℕ → String → Prop} {a : Act} (sound : Sound w)
    (returned : ∀ c id r, w.collector.calls c = some ⟨id, .returned (.ok r)⟩ →
      outcomeStatus r.status = "completed" → ∀ k, (k, id) ∈ w.log → P k id)
    (h : ∀ k (s : Session), w.sessions[k]? = some s → s.Justified (P k)) (hs : step w a = some v) :
    ∀ k (s : Session), v.sessions[k]? = some s → s.Justified (P k) := by
  have changed : ∀ k (s : Session), v.sessions = w.sessions.set k s → s.Justified (P k) →
      ∀ j (u : Session), v.sessions[j]? = some u → u.Justified (P j) := by
    intro k s e justified j u hu
    rw [e] at hu
    obtain ⟨rfl, rfl⟩ | hold := sessions_set hu
    · exact justified
    · exact h j u hold
  obtain ⟨req, order, d, -, hd, rfl⟩ | ⟨k, b, s, state, -, hk, alone, hstate, rfl⟩ |
    ⟨k, id, env, s, -, hk, rfl⟩ | ⟨k, id, s, result, state, -, hk, -, hstate, rfl⟩ |
    ⟨k, id, s, pending, waitCh, dispID, -, hk, -, -, rfl⟩ |
    ⟨k, id, s, c, id', result, state, -, hk, hc, hcall, hstate, rfl⟩ |
    ⟨b, collector, -, rfl, -⟩ := step_cases hs
  · obtain ⟨_, tracks, empty⟩ := validate_ok hd
    intro j u hu
    rw [List.getElem?_append] at hu
    split_ifs at hu with hlt
    · exact h j u hu
    · rw [List.getElem?_singleton] at hu
      split_ifs at hu
      cases hu
      exact ⟨.inl ⟨.start tracks empty, by simp [start]⟩, trivial⟩
  · refine changed k _ rfl ((h k s hk).step ?_ hstate)
    cases b with
    | dispatchReturns | waitReturns => cases alone
    | _ => trivial
  · exact changed k _ rfl ⟨(h k s hk).inv, (h k s hk).placed⟩
  · refine changed k _ rfl ((h k s hk).step ?_ hstate)
    cases result with
    | error err => exact fun impossible => absurd impossible (by decide)
    | ok dispID => trivial
  · exact changed k _ rfl ⟨(h k s hk).inv, (h k s hk).placed⟩
  · refine changed k _ rfl ((h k s hk).step ?_ hstate)
    intro completed
    obtain ⟨r, rfl, hr⟩ := waitStatus_completed completed
    have hsession := sound.sessions k s hk
    obtain ⟨p, hp⟩ := hsession.waits id c hc
    obtain rfl : id' = id := by
      rw [hcall] at hp
      cases hp
      rfl
    -- The goroutine that returns was pending, so the session has published the task.
    have cases := Scheduler.step_cases hstate
    simp only [reduceCtorEq, false_and, exists_false, false_or, or_false,
      Scheduler.Act.waitReturns.injEq] at cases
    obtain ⟨_, _, dispID, pending, waitCh, ⟨rfl, rfl⟩, hpc, hmem, rfl⟩ := cases
    have hpc := hpc ▸ hsession.pc
    exact returned c _ r hcall hr k (hpc.1 _ hmem).2
  · exact h

end Sessions

/-! ## The invariant -/

/-- Request number `n` asks for a task of the session that published it. -/
def Asks (w : World) (n : ℕ) (req : SendMessageRequest) : Prop :=
  ∃ k sreq task, w.log[n]? = some (k, chooseTaskID req) ∧ w.reqOf k = some sreq ∧
    sreq.tasks.find? (·.id = chooseTaskID req) = some task ∧
    req.message.extractPromptText = task.prompt

/-- An agent has answered the prompt of the task with the given ID. -/
def Answered (answers : List Answer) (w : World) (id : String) : Prop :=
  ∃ answer ∈ answers, ∃ k sreq task, w.log[answer.number]? = some (k, id) ∧
    w.reqOf k = some sreq ∧ sreq.tasks.find? (·.id = id) = some task ∧
    answer.prompt = task.prompt

/-- The prompt of request number `n` was answered by `content`. -/
def Replied (answers : List Answer) (n : ℕ) (req : SendMessageRequest) (content : String) : Prop :=
  ⟨n, req.message.extractPromptText, content⟩ ∈ answers

/-- What a publication for a request says is so. -/
def Reported (answers : List Answer) (n : ℕ) (req : SendMessageRequest) (subject : String) :
    Payload → Prop
  | .task task => subject = "agent.results." ++ chooseTaskID req ∧
    ∃ contextID content timestamp metadata, Replied answers n req content ∧
      task = buildTask (chooseTaskID req) contextID content timestamp metadata
  | .status status => subject = "agent.status." ++ chooseTaskID req ∧
    (outcomeStatus status.state = "completed" → ∃ content, Replied answers n req content)

/-- A completed result stands for an answer, and a task inside carries it. -/
def Evident (answers : List Answer) (requests : List SendMessageRequest) (r : TaskResult) : Prop :=
  outcomeStatus r.status = "completed" →
    ∃ req content, requests[r.origin]? = some req ∧ Replied answers r.origin req content ∧
      ∀ task ∈ r.task, ∃ contextID timestamp metadata,
        task = buildTask (chooseTaskID req) contextID content timestamp metadata

namespace Factory

/-- A `Handle` call works for a published request, and knows the answer it got. -/
def Works (answers : List Answer) (requests : List SendMessageRequest)
    (worker : ℕ × Proc (Except GoError Unit)) : Prop :=
  ∃ req φ, requests[worker.1]? = some req ∧
    Follows (Backed req) (fun _ _ => True) φ worker.2 ∧
    ∀ content ∈ φ, Replied answers worker.1 req content

structure Inv (answers : List Answer) (f : Factory) : Prop where
  sound : Sound f.world
  numbered : f.requests.length = f.world.log.length
  requests : ∀ n req, f.requests[n]? = some req → Asks f.world n req
  workers : ∀ worker ∈ f.workers, Works answers f.requests worker
  bus : ∀ entry ∈ f.bus, ∃ req, f.requests[entry.1]? = some req ∧
    Reported answers entry.1 req entry.2.1 entry.2.2
  holds : Holds (Evident answers f.requests) f.world.collector
  justified : ∀ k (s : Session), f.world.sessions[k]? = some s →
    s.Justified fun id => (k, id) ∈ f.world.log ∧ Answered answers f.world id
  ordered : ∀ k id req, (k, id) ∈ f.world.log → f.world.reqOf k = some req →
    ∀ d ∈ req.deps id, Answered answers f.world d

theorem Inv.new : Inv [] .new where
  sound := .new
  numbered := rfl
  requests := by simp [Factory.new]
  workers := by simp [Factory.new]
  bus := by simp [Factory.new]
  holds := .new
  justified := by simp [Factory.new, World.new]
  ordered := by simp [Factory.new, World.new]

end Factory

/-! ## What is known stays known -/

section Growth

variable {w v : World} {answers answers' : List Answer}
  {requests requests' : List SendMessageRequest}
  {n : ℕ} {req : SendMessageRequest}

theorem Asks.mono (h : Asks w n req) (ext : w.Extends v) : Asks v n req := by
  obtain ⟨k, sreq, task, hlog, hreq, htask, hprompt⟩ := h
  exact ⟨k, sreq, task, getElem?_of_prefix ext.log hlog, ext.reqOf k sreq hreq, htask,
    hprompt⟩

theorem Answered.mono {id : String} (h : Answered answers w id) (more : answers ⊆ answers')
    (ext : w.Extends v) : Answered answers' v id := by
  obtain ⟨answer, hanswer, k, sreq, task, hlog, hreq, htask, hprompt⟩ := h
  exact ⟨answer, more hanswer, k, sreq, task, getElem?_of_prefix ext.log hlog,
    ext.reqOf k sreq hreq, htask, hprompt⟩

/-- An answer to a request is an answer for the task it asks for. -/
theorem Asks.answered {content : String} (h : Asks w n req)
    (replied : Replied answers n req content) :
    Answered answers w (chooseTaskID req) := by
  obtain ⟨k, sreq, task, hlog, hreq, htask, hprompt⟩ := h
  exact ⟨_, replied, k, sreq, task, hlog, hreq, htask, hprompt⟩

theorem Reported.mono {subject : String} {payload : Payload}
    (h : Reported answers n req subject payload) (more : answers ⊆ answers') :
    Reported answers' n req subject payload := by
  cases payload with
  | task task =>
    obtain ⟨hsubject, contextID, content, timestamp, metadata, replied, htask⟩ := h
    exact ⟨hsubject, contextID, content, timestamp, metadata, more replied, htask⟩
  | status status =>
    refine h.imp_right fun evident completed => ?_
    obtain ⟨content, replied⟩ := evident completed
    exact ⟨content, more replied⟩

theorem Evident.mono {r : TaskResult} (h : Evident answers requests r) (more : answers ⊆ answers')
    (grows : requests <+: requests') : Evident answers' requests' r := by
  intro completed
  obtain ⟨req, content, hreq, replied, carried⟩ := h completed
  exact ⟨req, content, getElem?_of_prefix grows hreq, more replied, carried⟩

theorem Factory.Works.mono {worker : ℕ × Proc (Except GoError Unit)}
    (h : Works answers requests worker) (more : answers ⊆ answers')
    (grows : requests <+: requests') : Works answers' requests' worker := by
  obtain ⟨req, φ, hreq, follows, known⟩ := h
  exact ⟨req, φ, getElem?_of_prefix grows hreq, follows, fun content hc => more (known content hc)⟩

end Growth

/-! ## Publishing -/

/-- The request published for a task asks for it. -/
theorem dispatchTask_asks {sreq : ScheduleRequest} {env : DispatchEnv} {id : String}
    (named : "" ∉ sreq.ids) {p : String × SendMessageRequest}
    (h : p ∈ (dispatchTask sreq env id).1) :
    ∃ task, sreq.tasks.find? (·.id = id) = some task ∧ chooseTaskID p.2 = id ∧
      p.2.message.extractPromptText = task.prompt := by
  unfold dispatchTask at h
  split at h
  · rename_i task hfind
    have given : id ≠ "" := by
      rintro rfl
      have hid : task.id = "" := by simpa using List.find?_some hfind
      exact named (List.mem_map.mpr ⟨task, List.mem_of_find?_eq_some hfind, hid⟩)
    obtain ⟨err, stopped⟩ | ⟨taskID, subject, chosen, -, published, -⟩ :=
      dispatch_cases env { task.toTaskSpec with id := id } sreq.contextID
    · simp [stopped] at h
    · obtain rfl : id = taskID := by simpa [chooseID, given] using chosen
      rw [published, List.mem_singleton] at h
      subst h
      refine ⟨task, hfind, by simp [chooseTaskID, buildRequest, given], ?_⟩
      by_cases hprompt : task.prompt = "" <;>
        simp [buildRequest, Message.extractPromptText, hprompt]
  · cases h

namespace Factory

variable {f g : Factory} {answers : List Answer}

/-- The session of a log entry exists. -/
theorem Inv.reqOf_of_log (h : Inv answers f) {k : ℕ} {id : String} (hmem : (k, id) ∈ f.world.log) :
    ∃ sreq, f.world.reqOf k = some sreq := by
  obtain ⟨n, hn⟩ := List.mem_iff_getElem?.mp hmem
  have hlt : n < f.requests.length := h.numbered ▸ (List.getElem?_eq_some_iff.mp hn).1
  obtain ⟨k', sreq, task, hlog, hreq, -⟩ := h.requests n _ (List.getElem?_eq_getElem hlt)
  obtain ⟨rfl, -⟩ := Prod.mk.inj (Option.some.inj (hlog.symm.trans hn))
  exact ⟨sreq, hreq⟩

/-- What a returned completed result stands for. -/
theorem Inv.returned (h : Inv answers f) {c : ℕ} {id : String} {r : TaskResult}
    (hcall : f.world.collector.calls c = some ⟨id, .returned (.ok r)⟩)
    (completed : outcomeStatus r.status = "completed") : Answered answers f.world id := by
  obtain ⟨rfl, k, hlog⟩ := h.sound.holds.returned c id r hcall
  obtain ⟨-, evident⟩ := h.holds.returned c _ r hcall
  obtain ⟨req, content, hreq, replied, -⟩ := evident completed
  obtain ⟨k', sreq, task, hlog', -⟩ := h.requests _ req hreq
  obtain ⟨-, e⟩ := Prod.mk.inj (Option.some.inj (hlog.symm.trans hlog'))
  exact e ▸ (h.requests _ req hreq).answered replied

/-- The dependencies of a task whose goroutine is inside `Dispatch` were answered. -/
theorem Inv.dependencies (h : Inv answers f) {k : ℕ} {s : Session} {wave : List String}
    {slots : String → Slot} {id : String} (hk : f.world.sessions[k]? = some s)
    (hpc : s.state.pc = .dispatching wave slots) (hslot : slots id = .calling) :
    ∀ d ∈ s.req.deps id, Answered answers f.world d := by
  obtain ⟨inv, placed⟩ := h.justified k s hk
  have hwave : id ∈ s.state.pc.active := by
    rw [hpc] at placed ⊢
    exact placed id hslot
  intro d hd
  have completed : s.state.Completed d := by
    obtain ⟨running, -⟩ | ⟨u, -, -, e⟩ := inv
    · exact (running.runnable id hwave).deps d hd
    · rw [e] at hpc
      cases hpc
  exact (inv.allowed_of_completed completed rfl).2

/-! ## Steps -/

/-- What a handler publishes for a request is reported for it. -/
theorem emitted_reported {answers : List Answer} {number : ℕ} {req : SendMessageRequest}
    {φ φ' : Option String} {e : Event Ans} (h : Backed req φ e φ')
    (known : ∀ content ∈ φ', Replied answers number req content) :
    ∀ entry ∈ emitted number e,
      entry.1 = number ∧ Reported answers number req entry.2.1 entry.2.2 := by
  intro entry hentry
  obtain ⟨op, ans⟩ := e
  cases op with
  | publish subject payload =>
    simp only [emitted] at hentry
    split_ifs at hentry
    · obtain rfl := List.mem_singleton.mp hentry
      refine ⟨rfl, ?_⟩
      cases h with
      | silent quiet => cases quiet
      | unfinished early message timestamp p =>
        refine ⟨rfl, fun completed => ?_⟩
        rcases early with rfl | rfl <;> simp [outcomeStatus, TaskState.name] at completed
      | result content timestamp metadata p =>
        exact ⟨rfl, _, content, timestamp, metadata, known content rfl, rfl⟩
      | completed content timestamp p => exact ⟨rfl, fun _ => ⟨content, known content rfl⟩⟩
    · cases hentry
  | _ => cases hentry

/-- After a call of `Handle` its answer is known. -/
theorem answered_known {j number : ℕ} {p : Proc (Except GoError Unit)} {req : SendMessageRequest}
    {φ φ' : Option String} {e : Event Ans} (hworker : f.workers[j]? = some (number, p))
    (h : Backed req φ e φ') (known : ∀ content ∈ φ, Replied answers number req content) :
    ∀ content ∈ φ', Replied (answers ++ answered f (.work j e)) number req content := by
  intro content hcontent
  cases h with
  | answered sessionID content' =>
    obtain rfl := Option.some.inj hcontent
    exact List.mem_append_right _ (by simp [answered, hworker])
  | unanswered => cases hcontent
  | silent | unfinished | result | completed =>
    exact List.mem_append_left _ (known content hcontent)

/-- What the collector builds from a message is evident. -/
theorem evident_received {number : ℕ} {req : SendMessageRequest} {subject : String}
    {payload : Payload} {requests : List SendMessageRequest} {r : TaskResult}
    (hreq : requests[number]? = some req) (h : Reported answers number req subject payload)
    (hr : (received number subject payload).builds = some r) : Evident answers requests r := by
  intro completed
  cases payload with
  | task task =>
    obtain ⟨-, contextID, content, timestamp, metadata, replied, rfl⟩ := h
    obtain ⟨-, htask, horigin, -⟩ := receiveResult_spec rfl hr
    rw [horigin, htask]
    refine ⟨req, content, hreq, replied, ?_⟩
    rintro _ ⟨⟩
    exact ⟨contextID, timestamp, metadata, rfl⟩
  | status status =>
    obtain ⟨-, rfl⟩ := receiveStatus_spec rfl hr
    obtain ⟨content, replied⟩ := h.2 completed
    exact ⟨req, content, hreq, replied, by simp⟩

/-- Every step of the factory is at most one step of the world. -/
theorem Inv.refines (h : Inv answers f) {a : Act} (hs : step f a = some g) :
    ∃ bs, run Pipeline.step f.world bs = some g.world := by
  have one : ∀ b, Pipeline.step f.world b = some g.world →
      ∃ bs, run Pipeline.step f.world bs = some g.world :=
    fun b hb => ⟨[b], run_cons.mpr ⟨_, hb, rfl⟩⟩
  obtain ⟨b, world, -, -, hb, rfl⟩ | ⟨k, id, env, s, world, -, -, hb, rfl⟩ | ⟨_, _, _, -, -, rfl⟩ |
    ⟨_, _, _, _, _, -, -, -, rfl⟩ | ⟨i, number, subject, payload, collector, -, hentry, hb, rfl⟩ :=
    step_cases hs
  · exact one b hb
  · exact one _ hb
  · exact ⟨[], rfl⟩
  · exact ⟨[], rfl⟩
  · obtain ⟨req, hreq, reported⟩ := h.bus _ (List.mem_of_getElem? hentry)
    obtain ⟨k, sreq, task, hlog, -⟩ := h.requests number req hreq
    cases payload with
    | task result =>
      obtain ⟨rfl, contextID, content, timestamp, metadata, -, rfl⟩ := reported
      refine one
        (.result number (buildTask (chooseTaskID req) contextID content timestamp metadata)) ?_
      simp only [Pipeline.step, hlog, Option.bind_some]
      refine (if_pos rfl).trans ?_
      exact Option.map_eq_some_iff.mpr ⟨collector, hb, rfl⟩
    | status status =>
      obtain ⟨rfl, -⟩ := reported
      refine one (.status number status) ?_
      simp only [Pipeline.step, hlog, Option.bind_some]
      exact Option.map_eq_some_iff.mpr ⟨collector, hb, rfl⟩

theorem Inv.sound_step (h : Inv answers f) {a : Act} (hs : step f a = some g) : Sound g.world := by
  obtain ⟨bs, hbs⟩ := h.refines hs
  exact run_invariant Sound (fun _ _ _ hw hstep => hw.step hstep) hbs h.sound

/-- The world takes a step that sends and receives nothing. -/
theorem Inv.world (h : Inv answers f) {b : Pipeline.Act} {world : World} (quiet : inside b)
    (hb : Pipeline.step f.world b = some world) (sound : Sound world) :
    Inv answers { f with world } := by
  have ext := step_extends hb
  obtain ⟨hlog, hcollector⟩ := step_inside hb quiet
  refine ⟨sound, hlog ▸ h.numbered, fun n req hreq => (h.requests n req hreq).mono ext,
    h.workers, h.bus, ?_, ?_, ?_⟩
  · rcases hcollector with same | ⟨b, none, hstep⟩
    · exact same ▸ h.holds
    · exact h.holds.step h.sound.collector (by simp [none]) hstep
  · intro k s hk
    refine (justified_step h.sound ?_ h.justified hb k s hk).mono ?_
    · exact fun c id r hcall completed k hmem => ⟨hmem, h.returned hcall completed⟩
    · exact fun id ok => ⟨hlog ▸ ok.1, ok.2.mono (List.Subset.refl _) ext⟩
  · intro k id req hmem hreq d hd
    obtain ⟨sreq, hsreq⟩ := h.reqOf_of_log (hlog ▸ hmem)
    obtain rfl := Option.some.inj ((ext.reqOf k sreq hsreq).symm.trans hreq)
    exact (h.ordered k id sreq (hlog ▸ hmem) hsreq d hd).mono (List.Subset.refl _) ext

/-- A request is published for a task whose dependencies were answered. -/
theorem Inv.publish (h : Inv answers f) {k : ℕ} {id : String} {env : DispatchEnv} {s : Session}
    {world : World} (hk : f.world.sessions[k]? = some s)
    (hb : Pipeline.step f.world (.publish k id env) = some world) (sound : Sound world) :
    Inv answers { f with
      world, requests := f.requests ++ (dispatchTask s.req env id).1.map Prod.snd } := by
  have ext := step_extends hb
  have same := List.Subset.refl answers
  obtain ⟨wave, slots, hpc, hslot, e⟩ := publish_cases hk hb
  have hlog : world.log = f.world.log ++ (dispatchTask s.req env id).1.map fun _ => (k, id) := by
    rw [e]
  have hcollector : world.collector = f.world.collector := by rw [e]; rfl
  have grows := List.prefix_append f.requests ((dispatchTask s.req env id).1.map Prod.snd)
  have hreqOf : world.reqOf k = some s.req := ext.reqOf k s.req (by simp [World.reqOf, hk])
  refine ⟨sound, ?_, ?_, fun worker hw => (h.workers worker hw).mono same grows, ?_, ?_, ?_, ?_⟩
  · simp [hlog, h.numbered]
  · intro n req hreq
    rw [List.getElem?_append] at hreq
    split_ifs at hreq with hlt
    · exact (h.requests n req hreq).mono ext
    · -- A new request stands in the log at the same place.
      rw [List.getElem?_map] at hreq
      obtain ⟨p, hp, rfl⟩ := Option.map_eq_some_iff.mp hreq
      obtain ⟨task, htask, hid, hprompt⟩ :=
        dispatchTask_asks (h.sound.sessions k s hk).named (List.mem_of_getElem? hp)
      refine ⟨k, s.req, task, ?_, hreqOf, hid ▸ htask, hprompt⟩
      rw [hlog, List.getElem?_append_right (h.numbered ▸ not_lt.mp hlt), List.getElem?_map,
        ← h.numbered, hp, hid]
      rfl
  · intro entry hentry
    obtain ⟨req, hreq, reported⟩ := h.bus entry hentry
    exact ⟨req, getElem?_of_prefix grows hreq, reported⟩
  · rw [hcollector]
    exact h.holds.mono fun r hr => hr.mono same grows
  · intro j u hu
    refine (justified_step h.sound ?_ h.justified hb j u hu).mono ?_
    · exact fun c id r hcall completed k hmem => ⟨hmem, h.returned hcall completed⟩
    · exact fun id ok => ⟨ext.log.subset ok.1, ok.2.mono same ext⟩
  · intro j id' req hmem hreq d hd
    rw [hlog] at hmem
    rcases List.mem_append.mp hmem with hold | hnew
    · obtain ⟨sreq, hsreq⟩ := h.reqOf_of_log hold
      obtain rfl := Option.some.inj ((ext.reqOf j sreq hsreq).symm.trans hreq)
      exact (h.ordered j id' sreq hold hsreq d hd).mono same ext
    · obtain ⟨_, _, e'⟩ := List.mem_map.mp hnew
      cases e'
      obtain rfl := Option.some.inj (hreqOf.symm.trans hreq)
      exact (h.dependencies hk hpc hslot d hd).mono same ext

/-- A `Handle` call makes its next call. -/
theorem Inv.work (h : Inv answers f) {j number : ℕ} {e : Event Ans}
    {p q : Proc (Except GoError Unit)} (hworker : f.workers[j]? = some (number, p))
    (hq : p.advance e = some q) :
    Inv (answers ++ answered f (.work j e))
      { f with workers := f.workers.set j (number, q), bus := f.bus ++ emitted number e } := by
  have more := List.subset_append_left answers (answered f (.work j e))
  have same := World.Extends.refl f.world
  obtain ⟨req, φ, hreq, follows, known⟩ := h.workers _ (List.mem_of_getElem? hworker)
  obtain ⟨φ', hmove, hrest⟩ := follows.advance hq
  have known' := answered_known hworker hmove known
  refine ⟨h.sound, h.numbered, h.requests, ?_, ?_, ?_, ?_, ?_⟩
  · intro worker hmem
    rcases List.mem_or_eq_of_mem_set hmem with hold | rfl
    · exact (h.workers worker hold).mono more List.prefix_rfl
    · exact ⟨req, φ', hreq, hrest, known'⟩
  · intro entry hentry
    rcases List.mem_append.mp hentry with hold | hnew
    · obtain ⟨req, hreq, reported⟩ := h.bus entry hold
      exact ⟨req, hreq, reported.mono more⟩
    · obtain ⟨hnumber, reported⟩ := emitted_reported hmove known' entry hnew
      exact ⟨req, hnumber ▸ hreq, hnumber ▸ reported⟩
  · exact h.holds.mono fun r hr => hr.mono more List.prefix_rfl
  · intro k s hk
    exact (h.justified k s hk).mono fun id ok => ⟨ok.1, ok.2.mono more same⟩
  · intro k id req hmem hreq d hd
    exact (h.ordered k id req hmem hreq d hd).mono more same

theorem Inv.step (h : Inv answers f) {a : Act} (hs : step f a = some g) :
    Inv (answers ++ answered f a) g := by
  have sound := h.sound_step hs
  obtain ⟨b, world, rfl, quiet, hb, rfl⟩ | ⟨k, id, env, s, world, rfl, hk, hb, rfl⟩ |
    ⟨number, cfg, req, rfl, hreq, rfl⟩ | ⟨j, e, number, p, q, rfl, hworker, hq, rfl⟩ |
    ⟨i, number, subject, payload, collector, rfl, hentry, hb, rfl⟩ := step_cases hs
  · simpa [answered] using h.world quiet hb sound
  · simpa [answered] using h.publish hk hb sound
  · rw [show answered f (.deliver number cfg) = [] from rfl, List.append_nil]
    refine ⟨h.sound, h.numbered, h.requests, ?_, h.bus, h.holds, h.justified, h.ordered⟩
    intro worker hworker
    rcases List.mem_append.mp hworker with hold | hnew
    · exact h.workers worker hold
    · obtain rfl := List.mem_singleton.mp hnew
      exact ⟨req, none, hreq, backed_handle, by simp⟩
  · exact h.work hworker hq
  · rw [show answered f (.receive i) = [] from rfl, List.append_nil]
    obtain ⟨req, hreq, reported⟩ := h.bus _ (List.mem_of_getElem? hentry)
    refine ⟨sound, h.numbered, h.requests, h.workers, h.bus, ?_, h.justified, h.ordered⟩
    exact h.holds.step h.sound.collector (fun r hr => evident_received hreq reported hr) hb

theorem Inv.run {acts : List Act} (h : Foundation.run Factory.step .new acts = some f) :
    Inv (observe Factory.step answered .new acts) f :=
  Meets.observed answered (fun _ answers f => Inv answers f)
    (fun _ _ _ _ _ inv _ hs => inv.step hs) (Meets.of_forall (fun _ _ => trivial)) h .new

/-! ## The factory refines the world -/

/-- Whatever proxies, agents and the bus do, the calls of `Schedule`, the collector and the log
behave as in some run of the world. -/
theorem refines_world {acts : List Act} (h : Foundation.run step .new acts = some f) :
    ∃ bs, Foundation.run Pipeline.step .new bs = some f.world :=
  run_refines (fun f => ∃ answers, Inv answers f)
    (fun _ a _ inv hs => by
      obtain ⟨answers, inv⟩ := inv
      exact ⟨⟨_, inv.step hs⟩, inv.refines hs⟩) h ⟨[], .new⟩

/-! ## Agents work in dependency order -/

/-- What the answers given so far say about a state of the factory. -/
structure Causal (answers : List Answer) (f : Factory) : Prop where
  /-- A task that a call records as completed was published by this call, and an agent has
  answered its prompt. -/
  completed : ∀ k (s : Session) id, f.world.sessions[k]? = some s → s.state.Completed id →
    (k, id) ∈ f.world.log ∧ Answered answers f.world id
  /-- Without repeated IDs this was the request of the same call. -/
  own : (f.world.log.map Prod.snd).Nodup → ∀ k (s : Session) id,
    f.world.sessions[k]? = some s → s.state.Completed id →
    ∃ answer ∈ answers, f.world.log[answer.number]? = some (k, id) ∧
      ∃ task, s.req.tasks.find? (·.id = id) = some task ∧ answer.prompt = task.prompt
  /-- A `Handle` call works on a task of a session, for all of whose dependencies an agent has
  answered. -/
  ordered : ∀ worker ∈ f.workers, ∃ k s id, f.world.log[worker.1]? = some (k, id) ∧
    f.world.sessions[k]? = some s ∧ ∀ d ∈ s.req.deps id, Answered answers f.world d
  /-- The stored result of a completed task carries what the agent answered. -/
  carried : ∀ id r task, f.world.collector.results id = some r →
    outcomeStatus r.status = "completed" → r.task = some task →
    ∃ answer ∈ answers, answer.number = r.origin ∧
      task.artifacts.map (·.parts) = [[{ text := answer.content }]]

/-- In every run of the factory no proxy starts on a task before agents have answered for all its
dependencies, and every completed task stands for an agent's answer to its prompt. -/
theorem agents_in_dependency_order {acts : List Act}
    (h : Foundation.run step .new acts = some f) : Causal (observe step answered .new acts) f := by
  have inv := Factory.Inv.run h
  generalize observe step answered .new acts = answers at inv ⊢
  have completed : ∀ k (s : Session) id, f.world.sessions[k]? = some s → s.state.Completed id →
      (k, id) ∈ f.world.log ∧ Answered answers f.world id := fun k s id hk hc =>
    (inv.justified k s hk).inv.allowed_of_completed hc rfl
  refine ⟨completed, ?_, ?_, ?_⟩
  · intro nodup k s id hk hc
    obtain ⟨hmem, answer, hanswer, k', sreq, task, hlog, hreq, htask, hprompt⟩ :=
      completed k s id hk hc
    have same : (k, id) = (k', id) :=
      List.inj_on_of_nodup_map nodup hmem (List.mem_of_getElem? hlog) rfl
    obtain ⟨rfl, -⟩ := Prod.mk.inj same
    have hreq : s.req = sreq := by simpa [World.reqOf, hk] using hreq
    exact ⟨answer, hanswer, hlog, task, hreq ▸ htask, hprompt⟩
  · intro worker hworker
    obtain ⟨req, φ, hreq, -, -⟩ := inv.workers worker hworker
    obtain ⟨k, sreq, task, hlog, hsreq, -⟩ := inv.requests _ req hreq
    obtain ⟨s, hs, rfl⟩ := Option.map_eq_some_iff.mp hsreq
    exact ⟨k, s, _, hlog, hs, inv.ordered k _ s.req (List.mem_of_getElem? hlog) hsreq⟩
  · intro id r task hr hstatus htask
    obtain ⟨-, evident⟩ := inv.holds.results id r hr
    obtain ⟨req, content, -, replied, carried⟩ := evident hstatus
    obtain ⟨contextID, timestamp, metadata, rfl⟩ := carried task htask
    exact ⟨_, replied, rfl, rfl⟩

/-- Two tasks, one after the other. -/
def pair : ScheduleRequest where
  tasks := [{ id := "a", prompt := "plan" }, { id := "b", prompt := "build", dependsOn := ["a"] }]

/-- One wave of a single task, up to its goroutine entering `WaitFor`. -/
def wave (id : String) : List Act := [
  .world (.advance 0 .round), .world (.advance 0 (.callDispatch id)), .publish 0 id accepting,
  .world (.dispatchReturns 0 id), .world (.advance 0 .spawnWaits), .world (.waitFor 0 id)]

/-- The call number `j` handles the request for `a` up to the publication of its result. -/
def handleA (j : ℕ) : List Act := [
  .deliver 0 {}, .work j ⟨.enter, true⟩, .work j ⟨.now, "1"⟩,
  .work j ⟨.publish "agent.status.a" (.status { state := .working, timestamp := "1" }), .acked⟩,
  .work j ⟨.initOnce, none⟩, .work j ⟨.newSession, .ok "s"⟩, .work j ⟨.registerSession "s", ()⟩,
  .work j ⟨.prompt "s" "plan", .ok "done"⟩, .work j ⟨.now, "2"⟩, .work j ⟨.traceID, none⟩,
  .work j ⟨.publish "agent.results.a" (.task (buildTask "a" "" "done" "2" [])), .acked⟩]

/-- Task `a` is handled twice; its first result lets the call go on, and the request for `b`
reaches a proxy. -/
def pairRun : List Act :=
  .world (.schedule pair (inOrder pair)) :: wave "a" ++ handleA 0 ++ handleA 1 ++
  [.receive 1, .world (.collect (.receive 0)), .world (.waitReturns 0 "a"),
   .world (.advance 0 .receive), .world (.advance 0 .endWave)] ++ wave "b" ++ [.deliver 1 {}]

theorem pairRun_observed :
    ((run step .new pairRun).map fun f => (f.workers.map (·.1), f.world.log)) =
      some ([0, 0, 1], [(0, "a"), (0, "b")]) := by decide +kernel

theorem agents_in_dependency_order_pair :
    ∃ f, run step .new pairRun = some f ∧ f.workers.map (·.1) = [0, 0, 1] ∧
      Causal (observe step answered .new pairRun) f := by
  obtain ⟨f, hf, observed⟩ := Option.map_eq_some_iff.mp pairRun_observed
  exact ⟨f, hf, (Prod.mk.inj observed).1, agents_in_dependency_order hf⟩

theorem refines_world_pair :
    ∃ f bs, run step .new pairRun = some f ∧ f.world.log = [(0, "a"), (0, "b")] ∧
      run Pipeline.step .new bs = some f.world := by
  obtain ⟨f, hf, observed⟩ := Option.map_eq_some_iff.mp pairRun_observed
  obtain ⟨bs, hbs⟩ := refines_world hf
  exact ⟨f, bs, hf, (Prod.mk.inj observed).2, hbs⟩

end Factory

end Daedalus.Pipeline
