import Daedalus.Foundation.Json
import Daedalus.Operator.Types

/-!
# The manifests of an agent runtime

What `AgentRuntimeReconciler` of `operator/internal/controller/agentruntime_controller.go` builds
from an `AgentRuntime`: the registry entry, the Service, the Deployment of the static mode and the
KEDA ScaledJob. The ScaledJob is unstructured in the source, and so it is here. Parsing a resource
quantity is Kubernetes' own and a parameter.
-/
namespace Daedalus.Operator

open Foundation

abbrev Labels := List (String × String)

def proxyImage : String := "ghcr.io/raykao/daedalus-proxy:latest"

def configMapSuffix : String := "-agent-registry"

def serviceSuffix : String := "-a2a"

/-- The container port, 8080 by default. -/
def a2aPort (rt : AgentRuntime) : ℤ :=
  if rt.spec.container.port = 0 then 8080 else rt.spec.container.port

def childLabels (rt : AgentRuntime) : Labels := [
  ("app.kubernetes.io/name", "agentruntime"),
  ("app.kubernetes.io/instance", rt.name),
  ("app.kubernetes.io/managed-by", "daedalus-operator")]

def childLabelsMap (rt : AgentRuntime) : Json :=
  .obj ((childLabels rt).map fun l => (l.1, .str l.2))

def queueStream (rt : AgentRuntime) : String :=
  if rt.spec.queue.stream ≠ "" then rt.spec.queue.stream else "AGENT_TASKS"

/-- The consumer that the trigger watches. -/
def durableName (rt : AgentRuntime) : String :=
  if rt.spec.queue.durableName = "" then rt.name else rt.spec.queue.durableName

def kedaSpec (rt : AgentRuntime) : Option KEDASpec := rt.spec.scaling.bind (·.keda)

def natsMonitoringEndpoint (rt : AgentRuntime) : String :=
  match kedaSpec rt with
  | some keda =>
    if keda.natsMonitoringEndpoint ≠ "" then keda.natsMonitoringEndpoint
    else "nats.nats.svc.cluster.local:8222"
  | none => "nats.nats.svc.cluster.local:8222"

/-! ## The registry entry -/

open Json (omitEmpty omitZero omitNil omitNone)

def skillMembers (s : SkillSpec) : List (String × Json) :=
  [("id", Json.str s.id), ("name", Json.str s.name), ("description", Json.str s.description)] ++
    omitNil "tags" .str s.tags ++ omitNil "examples" .str s.examples

def encodeSkill (s : SkillSpec) : Json := .obj (skillMembers s)

def encodeCapabilities (c : CapabilitiesSpec) : Json :=
  .obj [("streaming", .bool c.streaming), ("pushNotifications", .bool c.pushNotifications)]

def cardMembers (c : AgentCardInline) : List (String × Json) :=
  [("name", Json.str c.name), ("description", Json.str c.description)] ++
    omitEmpty "version" c.version ++ omitNil "skills" encodeSkill c.skills ++
    omitNil "defaultInputModes" .str c.defaultInputModes ++
    omitNil "defaultOutputModes" .str c.defaultOutputModes ++
    omitNone "capabilities" encodeCapabilities c.capabilities

def encodeCard (c : AgentCardInline) : Json := .obj (cardMembers c)

def encodeReference (r : TypedReference) : Json :=
  .obj ([("kind", Json.str r.kind), ("apiGroup", Json.str r.apiGroup), ("name", Json.str r.name)] ++
    omitEmpty "namespace" r.ns)

def encodeResurrection (r : ResurrectionSpec) : Json :=
  .obj (omitZero "fullThreshold" r.fullThreshold ++
    omitZero "checkpointThreshold" r.checkpointThreshold)

def encodeContextManagement (c : ContextManagementSpec) : Json :=
  .obj (omitEmpty "compactionInterval" c.compactionInterval ++
    omitZero "tokenThreshold" c.tokenThreshold ++
    omitZero "eventRetentionSize" c.eventRetentionSize ++
    omitNone "summarizer" encodeReference c.summarizer ++ omitZero "overlapSize" c.overlapSize ++
    omitNone "resurrection" encodeResurrection c.resurrection)

/-- The card of the registry entry: inline, a reference, or the bare name. -/
def registryCard (rt : AgentRuntime) : Json :=
  match rt.spec.agentCard, rt.spec.agentCardRef with
  | some card, _ => encodeCard card
  | none, some ref => .obj [("kind", .str ref.kind), ("ref", .str ref.name)]
  | none, none => .obj [("name", .str rt.name)]

/-- The members of an `agentRegistryEntry`. -/
def registryMembers (rt : AgentRuntime) : List (String × Json) :=
  [("card", registryCard rt), ("queueSubject", Json.str rt.spec.queue.subject),
      ("runtime", Json.str rt.spec.type), ("acpPort", Json.num (a2aPort rt))] ++
    omitNone "contextManagement" encodeContextManagement rt.spec.contextManagement

/-- The document that the agent registry ConfigMap holds. -/
def buildRegistryJSON (rt : AgentRuntime) : Json := .obj (registryMembers rt)

/-! ## Containers -/

inductive EnvSource where
  | secretKeyRef (ref : KeySelector)
  | configMapKeyRef (ref : KeySelector)
  deriving DecidableEq, Repr

structure EnvVar where
  name : String
  value : String := ""
  valueFrom : Option EnvSource := none
  deriving DecidableEq, Repr

structure ContainerPort where
  name : String
  containerPort : ℤ
  protocol : String := "TCP"
  deriving DecidableEq, Repr

/-- A parsed quantity, by its canonical text. -/
structure Quantity where
  canonical : String
  deriving DecidableEq, Repr

structure ResourceList where
  cpu : Option Quantity := none
  memory : Option Quantity := none
  deriving DecidableEq, Repr

structure ResourceRequirements where
  requests : Option ResourceList := none
  limits : Option ResourceList := none
  deriving DecidableEq, Repr

structure Container where
  name : String
  image : String
  ports : List ContainerPort
  env : List EnvVar
  imagePullPolicy : String := ""
  resources : ResourceRequirements := {}
  deriving DecidableEq, Repr

/-- The reference of an environment variable; one without a reference is dropped. -/
def ValueSource.ref (src : ValueSource) : Option EnvSource :=
  (src.secretKeyRef.map .secretKeyRef).or (src.configMapKeyRef.map .configMapKeyRef)

def buildEnvVarsTyped (rt : AgentRuntime) : List EnvVar :=
  rt.spec.env.filterMap fun v =>
    match v.valueFrom with
    | some src => src.ref.map fun ref => { name := v.name, valueFrom := some ref }
    | none => some { name := v.name, value := v.value }

def renderRef (kind : String) (ref : KeySelector) : Json :=
  .obj [(kind, .obj [("name", .str ref.name), ("key", .str ref.key)])]

def buildEnvVars (rt : AgentRuntime) : List Json :=
  rt.spec.env.filterMap fun v =>
    match v.valueFrom with
    | some src =>
      match src.secretKeyRef, src.configMapKeyRef with
      | some ref, _ =>
        some (.obj [("name", .str v.name), ("valueFrom", renderRef "secretKeyRef" ref)])
      | none, some ref =>
        some (.obj [("name", .str v.name), ("valueFrom", renderRef "configMapKeyRef" ref)])
      | none, none => none
    | none => some (.obj [("name", .str v.name), ("value", .str v.value)])

/-- The interval of a context management, five minutes by default. -/
def compactionInterval (cm : ContextManagementSpec) : String :=
  if cm.compactionInterval = "" then "5m" else cm.compactionInterval

def renderVar (name value : String) : Json := .obj [("name", .str name), ("value", .str value)]

def contextManagementEnvVars (rt : AgentRuntime) : List Json :=
  match rt.spec.contextManagement with
  | none => []
  | some cm =>
    [renderVar "CONTEXT_COMPACTION_INTERVAL" (compactionInterval cm),
      renderVar "CONTEXT_TOKEN_THRESHOLD" (toString cm.tokenThreshold),
      renderVar "CONTEXT_EVENT_RETENTION_SIZE" (toString cm.eventRetentionSize),
      renderVar "CONTEXT_OVERLAP_SIZE" (toString cm.overlapSize)] ++
    match cm.resurrection with
    | none => []
    | some r =>
      [renderVar "CONTEXT_RESURRECTION_FULL_THRESHOLD" (toString r.fullThreshold),
        renderVar "CONTEXT_RESURRECTION_CHECKPOINT_THRESHOLD" (toString r.checkpointThreshold)]

def contextManagementEnvVarsTyped (rt : AgentRuntime) : List EnvVar :=
  match rt.spec.contextManagement with
  | none => []
  | some cm =>
    [{ name := "CONTEXT_COMPACTION_INTERVAL", value := compactionInterval cm },
      { name := "CONTEXT_TOKEN_THRESHOLD", value := toString cm.tokenThreshold },
      { name := "CONTEXT_EVENT_RETENTION_SIZE", value := toString cm.eventRetentionSize },
      { name := "CONTEXT_OVERLAP_SIZE", value := toString cm.overlapSize }] ++
    match cm.resurrection with
    | none => []
    | some r =>
      [{ name := "CONTEXT_RESURRECTION_FULL_THRESHOLD", value := toString r.fullThreshold },
        { name := "CONTEXT_RESURRECTION_CHECKPOINT_THRESHOLD",
          value := toString r.checkpointThreshold }]

/-- A map of the quantities that are given, left out when there are none. -/
def renderQuantities (name : String) (q : Option ResourceQuantity) : List (String × Json) :=
  match q with
  | none => []
  | some q =>
    let given := omitEmpty "cpu" q.cpu ++ omitEmpty "memory" q.memory
    if given.isEmpty then [] else [(name, .obj given)]

def buildResourceRequirements (rt : AgentRuntime) : Option Json :=
  match rt.spec.container.resources with
  | none => none
  | some res =>
    let members := renderQuantities "requests" res.requests ++ renderQuantities "limits" res.limits
    if members.isEmpty then none else some (.obj members)

/-- Kubernetes' `resource.ParseQuantity`. -/
abbrev QuantityParser := String → Except GoError Quantity

section Typed

variable (parse : QuantityParser)

/-- A quantity that is given is parsed. -/
def parseQuantity (field : String) (s : String) : Except GoError (Option Quantity) :=
  if s = "" then .ok none
  else
    match parse s with
    | .ok q => .ok (some q)
    | .error err => .error (.wrap ("parsing " ++ field ++ " " ++ s.quote) err)

def parseQuantities (field : String) : Option ResourceQuantity →
    Except GoError (Option ResourceList)
  | none => .ok none
  | some q => do
    let cpu ← parseQuantity parse (field ++ ".cpu") q.cpu
    let memory ← parseQuantity parse (field ++ ".memory") q.memory
    return some { cpu, memory }

def buildResourceRequirementsTyped (rt : AgentRuntime) : Except GoError ResourceRequirements :=
  match rt.spec.container.resources with
  | none => .ok {}
  | some res => do
    let requests ← parseQuantities parse "requests" res.requests
    let limits ← parseQuantities parse "limits" res.limits
    return { requests, limits }

/-- The containers of a Deployment. -/
def buildContainers (rt : AgentRuntime) (port : ℤ) : Except GoError (List Container) :=
  match buildResourceRequirementsTyped parse rt with
  | .error err => .error (.wrap "building resource requirements" err)
  | .ok resources => .ok [
    { name := "agent"
      image := rt.spec.container.image
      ports := [{ name := "a2a", containerPort := port }]
      env := buildEnvVarsTyped rt
      imagePullPolicy := rt.spec.container.imagePullPolicy
      resources },
    { name := "proxy"
      image := proxyImage
      ports := [{ name := "proxy", containerPort := 9090 }]
      env := [{ name := "AGENT_PORT", value := toString port },
        { name := "NATS_SUBJECT", value := rt.spec.queue.subject },
        { name := "NATS_STREAM", value := queueStream rt }] ++ contextManagementEnvVarsTyped rt }]

end Typed

/-! ## The ScaledJob -/

/-- A setting of the KEDA spec that overrides its default when it is positive. -/
def kedaSetting (rt : AgentRuntime) (setting : KEDASpec → ℤ) (default : ℤ) : ℤ :=
  match kedaSpec rt with
  | some keda => if 0 < setting keda then setting keda else default
  | none => default

/-- A threshold of the KEDA spec that overrides its default when it is given. -/
def kedaThreshold (rt : AgentRuntime) (threshold : KEDASpec → String) (default : String) : String :=
  match kedaSpec rt with
  | some keda => if threshold keda ≠ "" then threshold keda else default
  | none => default

def renderPort (name : String) (port : ℤ) : Json :=
  .obj [("containerPort", .num port), ("name", .str name), ("protocol", .str "TCP")]

def workerContainer (rt : AgentRuntime) : Json :=
  .obj ([("name", Json.str "agent"), ("image", Json.str rt.spec.container.image),
      ("ports", Json.arr [renderPort "a2a" (a2aPort rt)]), ("env", .ofSlice (buildEnvVars rt))] ++
    omitEmpty "imagePullPolicy" rt.spec.container.imagePullPolicy ++
    omitNone "resources" id (buildResourceRequirements rt))

def proxyEnv (rt : AgentRuntime) : List Json :=
  [renderVar "AGENT_PORT" (toString (a2aPort rt)), renderVar "NATS_SUBJECT" rt.spec.queue.subject,
    renderVar "NATS_STREAM" (queueStream rt)] ++ contextManagementEnvVars rt

def proxyContainer (rt : AgentRuntime) : Json :=
  .obj [("name", .str "proxy"), ("image", .str proxyImage),
    ("ports", .arr [renderPort "proxy" 9090]), ("env", .arr (proxyEnv rt))]

def imagePullSecretsUnstructured (rt : AgentRuntime) : List Json :=
  rt.spec.container.imagePullSecrets.map fun name => .obj [("name", .str name)]

def podSpec (rt : AgentRuntime) : Json :=
  .obj ([("containers", Json.arr [workerContainer rt, proxyContainer rt]),
      ("restartPolicy", Json.str "Never")] ++
    omitNil "imagePullSecrets" id (imagePullSecretsUnstructured rt))

/-- The metadata of the NATS JetStream trigger. -/
def triggerMetadata (rt : AgentRuntime) : Json :=
  .obj [("natsServerMonitoringEndpoint", .str (natsMonitoringEndpoint rt)),
    ("account", .str "$G"), ("stream", .str (queueStream rt)), ("consumer", .str (durableName rt)),
    ("lagThreshold", .str (kedaThreshold rt (·.lagThreshold) "1")),
    ("activationLagThreshold", .str (kedaThreshold rt (·.activationLagThreshold) "0"))]

def buildScaledJob (rt : AgentRuntime) (name : String) : Json :=
  .obj [("apiVersion", .str "keda.sh/v1alpha1"), ("kind", .str "ScaledJob"),
    ("metadata", .obj [("name", .str name), ("namespace", .str rt.ns),
      ("labels", childLabelsMap rt)]),
    ("spec", .obj [
      ("pollingInterval", .num (kedaSetting rt (·.pollingInterval) 15)),
      ("maxReplicaCount", .num (kedaSetting rt (·.maxReplicaCount) 5)),
      ("jobTargetRef", .obj [
        ("activeDeadlineSeconds", .num (kedaSetting rt (·.activeDeadlineSeconds) 600)),
        ("backoffLimit", .num (kedaSetting rt (·.backoffLimit) 2)),
        ("template", .obj [("metadata", .obj [("labels", childLabelsMap rt)]),
          ("spec", podSpec rt)])]),
      ("triggers", .arr [.obj [("type", .str "nats-jetstream"),
        ("metadata", triggerMetadata rt)]])])]

end Daedalus.Operator
