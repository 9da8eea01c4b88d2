import Daedalus.Basic

/-!
# The operator's resources

The custom resources of `operator/api/v1alpha1`, with the fields that the controllers read or write.
Integers of the Go types are `ℤ`, and a pointer that may be nil is an `Option`. A namespace is `ns`.
-/
namespace Daedalus.Operator

structure TypedReference where
  kind : String
  apiGroup : String := ""
  name : String
  ns : String := ""
  deriving DecidableEq, Repr

structure KeySelector where
  name : String
  key : String
  deriving DecidableEq, Repr

structure ValueSource where
  configMapKeyRef : Option KeySelector := none
  secretKeyRef : Option KeySelector := none
  deriving DecidableEq, Repr

structure ValueRef where
  name : String
  value : String := ""
  valueFrom : Option ValueSource := none
  deriving DecidableEq, Repr

structure SingleValueRef where
  valueFrom : Option ValueSource := none
  deriving DecidableEq, Repr

structure ResourceQuantity where
  cpu : String := ""
  memory : String := ""
  deriving DecidableEq, Repr

structure ResourceSpec where
  requests : Option ResourceQuantity := none
  limits : Option ResourceQuantity := none
  deriving DecidableEq, Repr

structure ContainerSpec where
  image : String
  port : ℤ := 0
  resources : Option ResourceSpec := none
  imagePullPolicy : String := ""
  imagePullSecrets : List String := []
  deriving DecidableEq, Repr

structure QueueBinding where
  subject : String
  stream : String := ""
  durableName : String := ""
  deriving DecidableEq, Repr

structure KEDASpec where
  pollingInterval : ℤ := 0
  maxReplicaCount : ℤ := 0
  activeDeadlineSeconds : ℤ := 0
  backoffLimit : ℤ := 0
  lagThreshold : String := ""
  activationLagThreshold : String := ""
  natsMonitoringEndpoint : String := ""
  deriving DecidableEq, Repr

structure ScalingSpec where
  mode : String
  replicas : Option ℤ := none
  keda : Option KEDASpec := none
  deriving DecidableEq, Repr

structure ResurrectionSpec where
  fullThreshold : ℤ := 0
  checkpointThreshold : ℤ := 0
  deriving DecidableEq, Repr

structure ContextManagementSpec where
  compactionInterval : String := ""
  tokenThreshold : ℤ := 0
  eventRetentionSize : ℤ := 0
  summarizer : Option TypedReference := none
  overlapSize : ℤ := 0
  resurrection : Option ResurrectionSpec := none
  deriving DecidableEq, Repr

structure SkillSpec where
  id : String
  name : String
  description : String := ""
  tags : List String := []
  examples : List String := []
  deriving DecidableEq, Repr

structure CapabilitiesSpec where
  streaming : Bool := false
  pushNotifications : Bool := false
  deriving DecidableEq, Repr

structure AgentCardInline where
  name : String
  description : String
  version : String := ""
  skills : List SkillSpec := []
  defaultInputModes : List String := []
  defaultOutputModes : List String := []
  capabilities : Option CapabilitiesSpec := none
  deriving DecidableEq, Repr

structure AgentRuntimeSpec where
  type : String := "BYO"
  container : ContainerSpec
  queue : QueueBinding
  scaling : Option ScalingSpec := none
  agentCard : Option AgentCardInline := none
  agentCardRef : Option TypedReference := none
  modelConfigRef : Option TypedReference := none
  contextManagement : Option ContextManagementSpec := none
  env : List ValueRef := []
  deriving DecidableEq, Repr

/-- The part of the status that names child resources. -/
structure AgentRuntimeStatus where
  scaledJobName : String := ""
  configMapName : String := ""
  serviceName : String := ""
  deriving DecidableEq, Repr

structure AgentRuntime where
  name : String
  ns : String
  uid : String
  /-- Counts the changes of the object. -/
  resourceVersion : ℕ := 0
  annotations : List (String × String) := []
  spec : AgentRuntimeSpec
  status : AgentRuntimeStatus := {}
  deriving DecidableEq, Repr

structure ModelConfigSpec where
  apiKey : Option SingleValueRef := none
  deriving DecidableEq, Repr

structure ModelConfigStatus where
  secretHash : String := ""
  /-- The condition of that name. -/
  degraded : Bool := false
  deriving DecidableEq, Repr

structure ModelConfig where
  name : String
  ns : String
  spec : ModelConfigSpec := {}
  status : ModelConfigStatus := {}
  deriving DecidableEq, Repr

end Daedalus.Operator
