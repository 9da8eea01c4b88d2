import Daedalus.Operator.Reconcile
import Daedalus.Queue.Isolation

/-!
# The operator and the proxy

The proxy that runs in the pods of a ScaledJob is configured by its environment
(`cmd/proxy/main.go`) and creates its durable consumer itself. What it is told is read here from
the manifest that `buildScaledJob` makes, and so is what the KEDA trigger watches and where the
agent listens. The two sides agree on the stream. They agree on the rest only where the runtime
happens to ask for what is built into the proxy: its consumer has a fixed name, and it never looks
at `AGENT_PORT`.
-/
namespace Daedalus.Operator

open Foundation

/-! ## The proxy's configuration -/

/-- The environment of a process. Of two settings of a name the last one counts. -/
abbrev Env := List (String × String)

def getenv (env : Env) (key : String) : String := (env.reverse.lookup key).getD ""

def envOrDefault (env : Env) (key defaultVal : String) : String :=
  if getenv env key ≠ "" then getenv env key else defaultVal

/-- What `main` reads to reach the agent and NATS, with all flags at their defaults. -/
structure ProxyConfig where
  acpAddr : String
  natsURL : String
  stream : String
  subject : String
  deriving DecidableEq, Repr

def proxyConfig (env : Env) : ProxyConfig where
  acpAddr := envOrDefault env "ACP_ADDR" "localhost:3000"
  natsURL := envOrDefault env "NATS_URL" "nats://localhost:4222"
  stream := envOrDefault env "NATS_STREAM" "AGENT_TASKS"
  subject := envOrDefault env "NATS_SUBJECT" "agent.tasks.>"

def ProxyConfig.queue (cfg : ProxyConfig) : Queue.Config where
  url := cfg.natsURL
  stream := cfg.stream
  subject := cfg.subject

/-- The NATS server after a proxy was started and reached it, where there was no consumer before. -/
def serverAfterStart (cfg : ProxyConfig) : Queue.Server :=
  (Queue.newConsumer Queue.Cluster.new.server cfg.queue {}).1

/-- The port of an address, as a number. -/
def portOf (addr : String) : Option ℤ :=
  let digits := (addr.toList.reverse.takeWhile (· ≠ ':')).reverse
  if digits ≠ [] ∧ digits.all Char.isDigit then
    some (digits.foldl (fun n d => 10 * n + (d.toNat - '0'.toNat)) 0 : ℕ)
  else none

example : portOf "localhost:3000" = some 3000 := by decide

/-! ## Reading a manifest -/

section Reading

variable (j : Json)

def strAt (path : List String) : Option String :=
  match j.at? path with
  | some (.str s) => some s
  | _ => none

def numAt (path : List String) : Option ℤ :=
  match j.at? path with
  | some (.num n) => some n
  | _ => none

def itemsAt (path : List String) : List Json :=
  match j.at? path with
  | some (.arr items) => items
  | _ => []

/-- A variable with a value of its own. -/
def envVar : Option (String × String) :=
  (strAt j ["name"]).bind fun name => (strAt j ["value"]).map fun value => (name, value)

/-- The environment that a container is started with. -/
def containerEnv : Env := (itemsAt j ["env"]).filterMap envVar

def containerNamed (name : String) : Option Json :=
  (itemsAt j ["spec", "jobTargetRef", "template", "spec", "containers"]).find? fun c =>
    strAt c ["name"] = some name

/-- What a ScaledJob says about the proxy, the agent and the consumer it scales on. -/
structure Wiring where
  env : Env
  agentPort : ℤ
  stream : String
  consumer : String

def wiring : Option Wiring := do
  let proxy ← containerNamed j "proxy"
  let agent ← containerNamed j "agent"
  let port ← (itemsAt agent ["ports"]).head?
  let trigger ← (itemsAt j ["spec", "triggers"]).head?
  return {
    env := containerEnv proxy
    agentPort := ← numAt port ["containerPort"]
    stream := ← strAt trigger ["metadata", "stream"]
    consumer := ← strAt trigger ["metadata", "consumer"] }

end Reading

/-- The proxy creates the consumer that is scaled on, with the runtime's subject as its filter, and
no other; and it dials the agent's port. -/
structure Agrees (rt : AgentRuntime) (w : Wiring) : Prop where
  consumer : ∀ stream name filter,
    (serverAfterStart (proxyConfig w.env)).consumers stream name = some filter ↔
      stream = w.stream ∧ name = w.consumer ∧ filter = rt.spec.queue.subject
  address : portOf (proxyConfig w.env).acpAddr = some w.agentPort

variable (rt : AgentRuntime)

/-- The proxy's environment in a ScaledJob. -/
def proxyVars : Env :=
  [("AGENT_PORT", toString (a2aPort rt)), ("NATS_SUBJECT", rt.spec.queue.subject),
    ("NATS_STREAM", queueStream rt)] ++ (contextManagementEnvVars rt).filterMap envVar

theorem wiring_buildScaledJob (name : String) : wiring (buildScaledJob rt name) = some {
    env := proxyVars rt
    agentPort := a2aPort rt
    stream := queueStream rt
    consumer := durableName rt } := rfl

/-- The settings of the context management are the only others. -/
def contextNames : List String := [
  "CONTEXT_COMPACTION_INTERVAL", "CONTEXT_TOKEN_THRESHOLD", "CONTEXT_EVENT_RETENTION_SIZE",
  "CONTEXT_OVERLAP_SIZE", "CONTEXT_RESURRECTION_FULL_THRESHOLD",
  "CONTEXT_RESURRECTION_CHECKPOINT_THRESHOLD"]

theorem contextVars_names : ∀ v ∈ (contextManagementEnvVars rt).filterMap envVar,
    v.1 ∈ contextNames := by
  have rendered (name value : String) : envVar (renderVar name value) = some (name, value) := rfl
  unfold contextManagementEnvVars
  cases rt.spec.contextManagement with
  | none => simp
  | some cm =>
    cases hr : cm.resurrection with
    | none => simp [rendered, contextNames, hr]
    | some r => simp [rendered, contextNames, hr]

theorem getenv_proxyVars {key : String} (hkey : key ∉ contextNames) : getenv (proxyVars rt) key =
    getenv [("AGENT_PORT", toString (a2aPort rt)), ("NATS_SUBJECT", rt.spec.queue.subject),
      ("NATS_STREAM", queueStream rt)] key := by
  have other : ((contextManagementEnvVars rt).filterMap envVar).reverse.lookup key = none := by
    rw [List.lookup_eq_none_iff]
    rintro ⟨name, value⟩ hv
    have := contextVars_names rt _ (List.mem_reverse.mp hv)
    simp only [bne_iff_ne, ne_eq]
    rintro rfl
    exact hkey this
  rw [getenv, proxyVars, List.reverse_append, List.lookup_append, other, Option.none_or, getenv]

theorem queueStream_ne : queueStream rt ≠ "" := by
  unfold queueStream
  split_ifs with given
  · exact given
  · decide

/-- What the proxy makes of its environment. -/
theorem proxyConfig_proxyVars : proxyConfig (proxyVars rt) = {
    acpAddr := "localhost:3000"
    natsURL := "nats://localhost:4222"
    stream := queueStream rt
    subject := if rt.spec.queue.subject ≠ "" then rt.spec.queue.subject else "agent.tasks.>" } := by
  have addr : getenv (proxyVars rt) "ACP_ADDR" = "" := getenv_proxyVars rt (by decide)
  have url : getenv (proxyVars rt) "NATS_URL" = "" := getenv_proxyVars rt (by decide)
  have stream : getenv (proxyVars rt) "NATS_STREAM" = queueStream rt :=
    getenv_proxyVars rt (by decide)
  have subject : getenv (proxyVars rt) "NATS_SUBJECT" = rt.spec.queue.subject :=
    getenv_proxyVars rt (by decide)
  simp [proxyConfig, envOrDefault, addr, url, stream, subject, queueStream_ne]

theorem serverAfterStart_consumers (cfg : ProxyConfig) (stream name filter : String) :
    (serverAfterStart cfg).consumers stream name = some filter ↔
      stream = cfg.stream ∧ name = Queue.consumerName ∧ filter = cfg.subject := by
  change Function.update (fun _ _ => none) cfg.stream
    (Function.update (fun _ => none) Queue.consumerName (some cfg.subject)) stream name =
      some filter ↔ _
  by_cases hs : stream = cfg.stream
  · subst hs
    by_cases hn : name = Queue.consumerName
    · subst hn
      simp [eq_comm]
    · simp [hn]
  · simp [hs]

/-- The proxy of a ScaledJob is wired to the consumer that is scaled on and to the agent exactly
when the runtime asks for the consumer name and the port that are built into the proxy, and names
its subject. -/
theorem wiring_agrees_iff :
    (∃ w, wiring (buildScaledJob rt rt.name) = some w ∧ Agrees rt w) ↔
      durableName rt = Queue.consumerName ∧ a2aPort rt = 3000 ∧ rt.spec.queue.subject ≠ "" := by
  rw [wiring_buildScaledJob]
  have port : portOf "localhost:3000" = some 3000 := by decide
  constructor
  · rintro ⟨_, ⟨⟩, agrees⟩
    have created := (agrees.consumer _ _ _).mp
      ((serverAfterStart_consumers _ _ _ _).mpr ⟨rfl, rfl, rfl⟩)
    have address := agrees.address
    rw [proxyConfig_proxyVars] at created address
    refine ⟨created.2.1.symm, Option.some.inj (address.symm.trans port), ?_⟩
    intro empty
    simp [empty] at created
  · rintro ⟨durable, agent, subject⟩
    refine ⟨_, rfl, ?_, ?_⟩
    · intro stream name filter
      rw [serverAfterStart_consumers, proxyConfig_proxyVars, durable]
      simp [subject]
    · rw [proxyConfig_proxyVars, agent]
      exact port

/-- A runtime that leaves everything to the defaults is scaled on a consumer that nobody creates,
and its proxy dials a port on which nobody listens. -/
theorem wiring_drifts_by_default : scalingMode worker = "ScaledJob" ∧
    ∃ w, wiring (buildScaledJob worker worker.name) = some w ∧
      (w.stream, w.consumer, w.agentPort) = ("AGENT_TASKS", "worker", 8080) ∧
      (serverAfterStart (proxyConfig w.env)).consumers "AGENT_TASKS" "worker" = none ∧
      portOf (proxyConfig w.env).acpAddr = some 3000 ∧ ¬ Agrees worker w := by
  have port : portOf (proxyConfig (proxyVars worker)).acpAddr = some 3000 := by decide
  refine ⟨by decide, _, wiring_buildScaledJob worker worker.name, by decide, by decide, port, ?_⟩
  intro agrees
  exact absurd (port.symm.trans agrees.address) (by decide)

end Daedalus.Operator
