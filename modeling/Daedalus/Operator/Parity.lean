import Daedalus.Foundation.JsonView
import Daedalus.Operator.Reconcile

/-!
# The two ways to build the pod

The pod of a runtime is built twice, typed for the Deployment and unstructured for the ScaledJob.
Here the typed one is written as Kubernetes encodes it, and the two documents are compared field by
field, the quantities by their values.
-/
namespace Daedalus.Operator

open Foundation

/-! ## How Kubernetes encodes the typed pod -/

open Json (omitEmpty omitNil omitNone omitNoMembers)

def encodeSelector (ref : KeySelector) : Json :=
  .obj (omitEmpty "name" ref.name ++ [("key", .str ref.key)])

def encodeSource : EnvSource → Json
  | .secretKeyRef ref => .obj [("secretKeyRef", encodeSelector ref)]
  | .configMapKeyRef ref => .obj [("configMapKeyRef", encodeSelector ref)]

def encodeEnvVar (v : EnvVar) : Json :=
  .obj ([("name", Json.str v.name)] ++ omitEmpty "value" v.value ++
    omitNone "valueFrom" encodeSource v.valueFrom)

def encodePort (p : ContainerPort) : Json :=
  .obj (omitEmpty "name" p.name ++ [("containerPort", Json.num p.containerPort)] ++
    omitEmpty "protocol" p.protocol)

/-- The quantities of a map by their canonical texts. -/
def quantityMembers (l : Option ResourceList) : List (String × Json) :=
  omitNone "cpu" (fun q : Quantity => .str q.canonical) (l.bind (·.cpu)) ++
    omitNone "memory" (fun q : Quantity => .str q.canonical) (l.bind (·.memory))

def encodeResourceList (name : String) (l : Option ResourceList) : List (String × Json) :=
  omitNoMembers name (quantityMembers l)

def encodeResources (r : ResourceRequirements) : Json :=
  .obj (encodeResourceList "limits" r.limits ++ encodeResourceList "requests" r.requests)

def encodeContainer (c : Container) : Json :=
  .obj ([("name", Json.str c.name)] ++ omitEmpty "image" c.image ++
    omitNil "ports" encodePort c.ports ++ omitNil "env" encodeEnvVar c.env ++
    [("resources", encodeResources c.resources)] ++
    omitEmpty "imagePullPolicy" c.imagePullPolicy)

def encodePodSpec (spec : DeploymentSpec) : Json :=
  .obj ([("containers", Json.arr (spec.containers.map encodeContainer))] ++
    omitNil "imagePullSecrets" (fun name => .obj (omitEmpty "name" name)) spec.imagePullSecrets)

/-! ## What is the same -/

open Json (Alike Step ofText ofSlice ofMembers alike_of_names alike_ofText alike_arr_of_forall₂
  lookup_cons_ite)

/-- What is used of `resource.ParseQuantity`: the canonical text of a quantity reads as the same
quantity, and an empty text is none. -/
structure Canonical (parse : QuantityParser) : Prop where
  reread : ∀ s q, parse s = .ok q → parse q.canonical = .ok q
  nonempty : ∀ q, parse "" ≠ .ok q

/-- The texts of the quantities that are given. -/
def quantities (rt : AgentRuntime) : List String :=
  (rt.spec.container.resources.toList.flatMap fun res =>
    (res.requests.toList ++ res.limits.toList).flatMap fun q => [q.cpu, q.memory]).filter (· ≠ "")

def SameQuantity (parse : QuantityParser) (s t : String) : Prop :=
  ∃ q, parse s = .ok q ∧ parse t = .ok q

/-- In a list of containers the texts under `resources` are quantities. -/
def SameText (parse : QuantityParser) : List Step → String → String → Prop
  | .item _ :: .member field :: _, s, t =>
    if field = "resources" then SameQuantity parse s t else s = t
  | _, s, t => s = t

/-- Two pod specs with the same containers and pull secrets. -/
structure SamePod (parse : QuantityParser) (a b : Json) : Prop where
  containers : Alike (SameText parse) (a.get "containers") (b.get "containers")
  imagePullSecrets :
    Alike (fun _ => Eq) (a.get "imagePullSecrets") (b.get "imagePullSecrets")

/-! ## Ports and environment -/

theorem alike_encodePort (name : String) (h : name ≠ "") (port : ℤ) :
    Alike (fun _ => Eq) (encodePort { name, containerPort := port }) (renderPort name port) := by
  refine alike_of_names ["name", "containerPort", "protocol"] rfl rfl ?_ ⟨?_, ?_, ?_⟩
  · intro key hkey
    simp_all [encodePort, renderPort, Json.get, List.lookup_append, lookup_cons_ite]
  all_goals simp [encodePort, renderPort, Json.get, List.lookup_append, lookup_cons_ite, h]

theorem alike_encodeSelector (ref : KeySelector) : Alike (fun _ => Eq) (encodeSelector ref)
    (.obj [("name", .str ref.name), ("key", .str ref.key)]) := by
  refine alike_of_names ["name", "key"] rfl rfl ?_ ⟨?_, ?_⟩
  · intro key hkey
    simp_all [encodeSelector, Json.get, List.lookup_append, lookup_cons_ite]
  · simpa [encodeSelector, Json.get, List.lookup_append, lookup_cons_ite] using
      alike_ofText (fun _ _ => rfl) ref.name
  · simp [encodeSelector, Json.get, List.lookup_append, lookup_cons_ite]

theorem alike_encodeSource (kind : String) (ref : KeySelector) {source : EnvSource}
    (h : encodeSource source = .obj [(kind, encodeSelector ref)]) :
    Alike (fun _ => Eq) (encodeSource source) (renderRef kind ref) := by
  rw [h]
  refine alike_of_names [kind] rfl rfl ?_ ?_
  · intro key hkey
    simp_all [renderRef, Json.get]
  · simpa [renderRef, Json.get, List.Forall] using alike_encodeSelector ref

theorem alike_encodeEnvVar_source (name kind : String) (ref : KeySelector) {source : EnvSource}
    (h : encodeSource source = .obj [(kind, encodeSelector ref)]) :
    Alike (fun _ => Eq) (encodeEnvVar { name, valueFrom := some source })
      (.obj [("name", .str name), ("valueFrom", renderRef kind ref)]) := by
  refine alike_of_names ["name", "valueFrom"] rfl rfl ?_ ⟨?_, ?_⟩
  · intro key hkey
    simp_all [encodeEnvVar, Json.get, List.lookup_append, lookup_cons_ite]
  · simp [encodeEnvVar, Json.get]
  · simpa [encodeEnvVar, Json.get, List.lookup_append, lookup_cons_ite] using
      alike_encodeSource kind ref h

theorem alike_encodeEnvVar (name value : String) :
    Alike (fun _ => Eq) (encodeEnvVar { name, value }) (renderVar name value) := by
  refine alike_of_names ["name", "value"] rfl rfl ?_ ⟨?_, ?_⟩
  · intro key hkey
    simp_all [encodeEnvVar, renderVar, Json.get, List.lookup_append, lookup_cons_ite]
  · simp [encodeEnvVar, renderVar, Json.get]
  · simpa [encodeEnvVar, renderVar, Json.get, List.lookup_append, lookup_cons_ite] using
      alike_ofText (fun _ _ => rfl) value

/-- The two environments of the agent, variable by variable. -/
theorem buildEnvVars_alike (rt : AgentRuntime) :
    List.Forall₂ (Alike fun _ => Eq) ((buildEnvVarsTyped rt).map encodeEnvVar)
      (buildEnvVars rt) := by
  unfold buildEnvVarsTyped buildEnvVars
  induction rt.spec.env with
  | nil => exact .nil
  | cons v env ih =>
    obtain ⟨name, value, valueFrom⟩ := v
    rcases valueFrom with _ | ⟨_ | config, _ | secret⟩
    · exact .cons (alike_encodeEnvVar name value) ih
    · exact ih
    · exact .cons (alike_encodeEnvVar_source name "secretKeyRef" secret rfl) ih
    · exact .cons (alike_encodeEnvVar_source name "configMapKeyRef" config rfl) ih
    · exact .cons (alike_encodeEnvVar_source name "secretKeyRef" secret rfl) ih

theorem contextManagementEnvVars_alike (rt : AgentRuntime) :
    List.Forall₂ (Alike fun _ => Eq) ((contextManagementEnvVarsTyped rt).map encodeEnvVar)
      (contextManagementEnvVars rt) := by
  unfold contextManagementEnvVarsTyped contextManagementEnvVars
  rcases rt.spec.contextManagement with _ | cm
  · exact .nil
  · rcases hr : cm.resurrection with _ | r <;> simp [hr, alike_encodeEnvVar]

/-! ## Resources -/

/-- The members that `renderQuantities` writes into its map. -/
def givenMembers (q : Option ResourceQuantity) : List (String × Json) :=
  omitEmpty "cpu" ((q.map (·.cpu)).getD "") ++ omitEmpty "memory" ((q.map (·.memory)).getD "")

theorem renderQuantities_eq (name : String) (q : Option ResourceQuantity) :
    renderQuantities name q = omitNoMembers name (givenMembers q) := by
  cases q <;> rfl

theorem getD_buildResourceRequirements (rt : AgentRuntime) :
    (buildResourceRequirements rt).getD .null = ofMembers
      (omitNoMembers "requests" (givenMembers (rt.spec.container.resources.bind (·.requests))) ++
        omitNoMembers "limits" (givenMembers (rt.spec.container.resources.bind (·.limits)))) := by
  unfold buildResourceRequirements
  cases rt.spec.container.resources with
  | none => rfl
  | some res =>
    simp only [renderQuantities_eq, List.isEmpty_iff]
    exact Json.getD_omitNoMembers _

section Resources

variable {parse : QuantityParser}

theorem parseQuantity_succeeds {s : String} (h : s ≠ "" → ∃ q, parse s = .ok q) (field : String) :
    ∃ q, parseQuantity parse field s = .ok q := by
  unfold parseQuantity
  split_ifs with hs
  · exact ⟨none, rfl⟩
  · obtain ⟨q, hq⟩ := h hs
    exact ⟨some q, by rw [hq]⟩

theorem parseQuantities_succeeds {q : Option ResourceQuantity}
    (h : ∀ r ∈ q, ∀ s ∈ [r.cpu, r.memory], s ≠ "" → ∃ q, parse s = .ok q) (field : String) :
    ∃ l, parseQuantities parse field q = .ok l := by
  cases q with
  | none => exact ⟨none, rfl⟩
  | some r =>
    obtain ⟨cpu, hcpu⟩ := parseQuantity_succeeds (h r rfl r.cpu (by simp)) (field ++ ".cpu")
    obtain ⟨memory, hmemory⟩ :=
      parseQuantity_succeeds (h r rfl r.memory (by simp)) (field ++ ".memory")
    exact ⟨some { cpu, memory }, by simp [parseQuantities, hcpu, hmemory]; rfl⟩

theorem mem_quantities {rt : AgentRuntime} {res : ResourceSpec} {q : ResourceQuantity} {s : String}
    (hres : rt.spec.container.resources = some res) (hq : q ∈ res.requests ∨ q ∈ res.limits)
    (hs : s ∈ [q.cpu, q.memory]) (hne : s ≠ "") : s ∈ quantities rt := by
  unfold quantities
  rw [hres, List.mem_filter]
  refine ⟨List.mem_flatMap.mpr ⟨res, by simp, List.mem_flatMap.mpr ⟨q, ?_, hs⟩⟩, by simpa using hne⟩
  rw [List.mem_append, Option.mem_toList, Option.mem_toList]
  exact hq

/-- When every quantity parses, so do the resources. -/
theorem buildResourceRequirementsTyped_succeeds {rt : AgentRuntime}
    (h : ∀ s ∈ quantities rt, ∃ q, parse s = .ok q) :
    ∃ r, buildResourceRequirementsTyped parse rt = .ok r := by
  unfold buildResourceRequirementsTyped
  cases hres : rt.spec.container.resources with
  | none => exact ⟨{}, rfl⟩
  | some res =>
    obtain ⟨requests, hrequests⟩ := parseQuantities_succeeds
      (fun q hq s hs hne => h s (mem_quantities hres (.inl hq) hs hne)) "requests"
    obtain ⟨limits, hlimits⟩ := parseQuantities_succeeds
      (fun q hq s hs hne => h s (mem_quantities hres (.inr hq) hs hne)) "limits"
    exact ⟨{ requests, limits }, by simp [hrequests, hlimits]; rfl⟩

variable (canonical : Canonical parse)
include canonical

theorem alike_quantity {field s : String} {q : Option Quantity}
    (parsed : parseQuantity parse field s = .ok q) :
    Alike (fun _ => SameQuantity parse) ((q.map fun q => Json.str q.canonical).getD .null)
      (ofText s) := by
  unfold parseQuantity at parsed
  unfold ofText
  split_ifs at parsed with hs
  · cases parsed
    rw [if_pos hs]
    exact Json.alike_null
  · cases hq : parse s with
    | error err => simp [hq] at parsed
    | ok q' =>
      rw [hq] at parsed
      cases parsed
      have hread := canonical.reread s q' hq
      have hne : q'.canonical ≠ "" := fun h => canonical.nonempty q' (h ▸ hread)
      rw [if_neg hs]
      refine Json.alike_of_into ?_ ?_
      · simpa [Json.leaf, Json.LeafAlike, hs, hne] using ⟨q', hread, hq⟩
      · rintro (name | i) <;> exact Json.alike_null

theorem alike_quantityMembers {field : String} {q : Option ResourceQuantity}
    {l : Option ResourceList} (parsed : parseQuantities parse field q = .ok l) :
    Alike (fun _ => SameQuantity parse) (.obj (quantityMembers l)) (.obj (givenMembers q)) := by
  cases q with
  | none =>
    cases parsed
    exact alike_of_names [] rfl rfl (fun _ _ => ⟨rfl, rfl⟩) trivial
  | some r =>
    obtain ⟨cpu, hcpu, parsed⟩ := bind_eq_ok.mp parsed
    obtain ⟨memory, hmemory, parsed⟩ := bind_eq_ok.mp parsed
    cases parsed
    refine alike_of_names ["cpu", "memory"] rfl rfl ?_ ⟨?_, ?_⟩
    · intro key hkey
      simp_all [quantityMembers, givenMembers, Json.get, List.lookup_append]
    · simpa [quantityMembers, givenMembers, Json.get, List.lookup_append] using
        alike_quantity canonical hcpu
    · simpa [quantityMembers, givenMembers, Json.get, List.lookup_append] using
        alike_quantity canonical hmemory

theorem alike_resourceList {field : String} {q : Option ResourceQuantity} {l : Option ResourceList}
    (parsed : parseQuantities parse field q = .ok l) :
    Alike (fun _ => SameQuantity parse) (ofMembers (quantityMembers l))
      (ofMembers (givenMembers q)) :=
  Json.alike_ofMembers (alike_quantityMembers canonical parsed)

theorem alike_resources {rt : AgentRuntime} {r : ResourceRequirements}
    (parsed : buildResourceRequirementsTyped parse rt = .ok r) :
    Alike (fun _ => SameQuantity parse) (encodeResources r)
      ((buildResourceRequirements rt).getD .null) := by
  have lists : ∃ fields : String × String,
      parseQuantities parse fields.1 (rt.spec.container.resources.bind (·.requests)) =
        .ok r.requests ∧
      parseQuantities parse fields.2 (rt.spec.container.resources.bind (·.limits)) =
        .ok r.limits := by
    unfold buildResourceRequirementsTyped at parsed
    cases hres : rt.spec.container.resources with
    | none =>
      rw [hres] at parsed
      cases parsed
      exact ⟨("", ""), rfl, rfl⟩
    | some res =>
      rw [hres] at parsed
      obtain ⟨requests, hrequests, parsed⟩ := bind_eq_ok.mp parsed
      obtain ⟨limits, hlimits, parsed⟩ := bind_eq_ok.mp parsed
      cases parsed
      exact ⟨("requests", "limits"), hrequests, hlimits⟩
  obtain ⟨_, requests, limits⟩ := lists
  unfold Alike
  rw [getD_buildResourceRequirements, Json.view_ofMembers]
  refine alike_of_names ["requests", "limits"] rfl rfl ?_ ⟨?_, ?_⟩
  · intro key hkey
    simp_all [encodeResources, encodeResourceList, Json.get, List.lookup_append]
  · simpa [encodeResources, encodeResourceList, Json.get, List.lookup_append] using
      alike_resourceList canonical requests
  · simpa [encodeResources, encodeResourceList, Json.get, List.lookup_append] using
      alike_resourceList canonical limits

end Resources

/-! ## The pod -/

section Pod

variable {parse : QuantityParser} {a b : Json} {i : ℕ}

theorem alike_of_ne_resources {field : String} (hne : field ≠ "resources")
    (h : Alike (fun _ => Eq) a b) :
    Alike (fun path => SameText parse (.item i :: .member field :: path)) a b := by
  have same : (fun path => SameText parse (.item i :: .member field :: path)) = fun _ => Eq := by
    funext path s t
    simp [SameText, hne]
  rwa [same]

theorem alike_of_resources (h : Alike (fun _ => SameQuantity parse) a b) :
    Alike (fun path => SameText parse (.item i :: .member "resources" :: path)) a b := by
  have same : (fun path => SameText parse (.item i :: .member "resources" :: path)) =
      fun _ => SameQuantity parse := by
    funext path s t
    simp [SameText]
  rwa [same]

def agentContainer (rt : AgentRuntime) (resources : ResourceRequirements) : Container where
  name := "agent"
  image := rt.spec.container.image
  ports := [{ name := "a2a", containerPort := a2aPort rt }]
  env := buildEnvVarsTyped rt
  imagePullPolicy := rt.spec.container.imagePullPolicy
  resources

def proxySidecar (rt : AgentRuntime) : Container where
  name := "proxy"
  image := proxyImage
  ports := [{ name := "proxy", containerPort := 9090 }]
  env := [{ name := "AGENT_PORT", value := toString (a2aPort rt) },
    { name := "NATS_SUBJECT", value := rt.spec.queue.subject },
    { name := "NATS_STREAM", value := queueStream rt }] ++ contextManagementEnvVarsTyped rt

theorem buildContainers_eq {rt : AgentRuntime} {resources : ResourceRequirements}
    (h : buildResourceRequirementsTyped parse rt = .ok resources) :
    buildContainers parse rt (a2aPort rt) = .ok [agentContainer rt resources, proxySidecar rt] := by
  unfold buildContainers
  rw [h]
  rfl

theorem get_encodeContainer (c : Container) (key : String) : (encodeContainer c).get key =
    if key = "name" then .str c.name else
    if key = "image" then ofText c.image else
    if key = "ports" then ofSlice (c.ports.map encodePort) else
    if key = "env" then ofSlice (c.env.map encodeEnvVar) else
    if key = "resources" then encodeResources c.resources else
    if key = "imagePullPolicy" then ofText c.imagePullPolicy else .null := by
  unfold encodeContainer
  split_ifs <;> simp_all [Json.get, List.lookup_append, lookup_cons_ite]

theorem get_workerContainer (rt : AgentRuntime) (key : String) : (workerContainer rt).get key =
    if key = "name" then .str "agent" else
    if key = "image" then .str rt.spec.container.image else
    if key = "ports" then .arr [renderPort "a2a" (a2aPort rt)] else
    if key = "env" then ofSlice (buildEnvVars rt) else
    if key = "resources" then (buildResourceRequirements rt).getD .null else
    if key = "imagePullPolicy" then ofText rt.spec.container.imagePullPolicy else .null := by
  unfold workerContainer
  split_ifs <;> simp_all [Json.get, List.lookup_append, lookup_cons_ite]

theorem get_proxyContainer (rt : AgentRuntime) (key : String) : (proxyContainer rt).get key =
    if key = "name" then .str "proxy" else
    if key = "image" then .str proxyImage else
    if key = "ports" then .arr [renderPort "proxy" 9090] else
    if key = "env" then .arr (proxyEnv rt) else .null := by
  unfold proxyContainer
  split_ifs <;> simp_all [Json.get, lookup_cons_ite]

/-- Containers are compared by the fields that the typed one has. -/
theorem alike_encodeContainer {c : Container} (hb : b.isRecord)
    (others : ∀ key, key ∉ ["name", "image", "ports", "env", "resources", "imagePullPolicy"] →
      b.get key = .null)
    (name : Alike (fun _ => Eq) (.str c.name) (b.get "name"))
    (image : Alike (fun _ => Eq) (ofText c.image) (b.get "image"))
    (ports : Alike (fun _ => Eq) (ofSlice (c.ports.map encodePort)) (b.get "ports"))
    (env : Alike (fun _ => Eq) (ofSlice (c.env.map encodeEnvVar)) (b.get "env"))
    (resources : Alike (fun _ => SameQuantity parse) (encodeResources c.resources)
      (b.get "resources"))
    (imagePullPolicy : Alike (fun _ => Eq) (ofText c.imagePullPolicy) (b.get "imagePullPolicy")) :
    Alike (fun path => SameText parse (.item i :: path)) (encodeContainer c) b := by
  refine alike_of_names ["name", "image", "ports", "env", "resources", "imagePullPolicy"] rfl hb
    (fun key hkey => ⟨?_, others key hkey⟩)
    ⟨alike_of_ne_resources (by simp) ?_, alike_of_ne_resources (by simp) ?_,
      alike_of_ne_resources (by simp) ?_, alike_of_ne_resources (by simp) ?_,
      alike_of_resources ?_, alike_of_ne_resources (by simp) ?_⟩
  · simp_all [get_encodeContainer]
  all_goals simpa [get_encodeContainer]

theorem alike_agent (canonical : Canonical parse) {rt : AgentRuntime}
    {resources : ResourceRequirements}
    (parsed : buildResourceRequirementsTyped parse rt = .ok resources) :
    Alike (fun path => SameText parse (.item i :: path))
      (encodeContainer (agentContainer rt resources)) (workerContainer rt) := by
  have ports := alike_arr_of_forall₂ (fun _ => rfl)
    (.cons (alike_encodePort "a2a" (by simp) (a2aPort rt)) .nil)
  have env := Json.alike_ofSlice (alike_arr_of_forall₂ (fun _ => rfl) (buildEnvVars_alike rt))
  apply alike_encodeContainer rfl
  · intro key hkey
    simp_all [get_workerContainer]
  · simp [get_workerContainer, agentContainer]
  · simpa [get_workerContainer, agentContainer] using alike_ofText (fun _ _ => rfl) _
  · simpa [get_workerContainer, agentContainer, ofSlice] using ports
  · simpa [get_workerContainer, agentContainer] using env
  · simpa [get_workerContainer, agentContainer] using alike_resources canonical parsed
  · simp [get_workerContainer, agentContainer]

theorem alike_proxy (rt : AgentRuntime) :
    Alike (fun path => SameText parse (.item i :: path)) (encodeContainer (proxySidecar rt))
      (proxyContainer rt) := by
  have ports := alike_arr_of_forall₂ (fun _ => rfl)
    (.cons (alike_encodePort "proxy" (by simp) 9090) .nil)
  have env := alike_arr_of_forall₂ (fun _ => rfl) <|
    .cons (alike_encodeEnvVar "AGENT_PORT" (toString (a2aPort rt))) <|
    .cons (alike_encodeEnvVar "NATS_SUBJECT" rt.spec.queue.subject) <|
    .cons (alike_encodeEnvVar "NATS_STREAM" (queueStream rt)) <|
    contextManagementEnvVars_alike rt
  have resources : Alike (fun _ => SameQuantity parse) (encodeResources {}) .null :=
    alike_of_names [] rfl rfl (fun _ _ => ⟨rfl, rfl⟩) trivial
  apply alike_encodeContainer rfl
  · intro key hkey
    simp_all [get_proxyContainer]
  · simp [get_proxyContainer, proxySidecar]
  · simpa [get_proxyContainer, proxySidecar] using alike_ofText (fun _ _ => rfl) proxyImage
  · simpa [get_proxyContainer, proxySidecar, ofSlice] using ports
  · simpa [get_proxyContainer, proxySidecar, proxyEnv, ofSlice] using env
  · simpa [get_proxyContainer, proxySidecar] using resources
  · simp [get_proxyContainer, proxySidecar, ofText]

theorem alike_imagePullSecrets (names : List String) :
    List.Forall₂ (Alike fun _ => Eq) (names.map fun name => .obj (omitEmpty "name" name))
      (names.map fun name => Json.obj [("name", .str name)]) := by
  induction names with
  | nil => exact .nil
  | cons name names ih =>
    refine .cons (alike_of_names ["name"] rfl rfl ?_ ?_) ih
    · intro key hkey
      simp_all [Json.get]
    · simpa [Json.get, List.Forall] using alike_ofText (fun _ _ => rfl) name

/-- When the quantities of a runtime parse, its Deployment and its ScaledJob are for the same
pod. -/
theorem same_pod (canonical : Canonical parse) {rt : AgentRuntime}
    (parsed : ∀ s ∈ quantities rt, ∃ q, parse s = .ok q) (name : String) :
    ∃ containers, buildContainers parse rt (a2aPort rt) = .ok containers ∧
      ∃ scaled, (buildScaledJob rt name).at? ["spec", "jobTargetRef", "template", "spec"] =
          some scaled ∧
        SamePod parse (encodePodSpec (desiredDeployment rt containers).spec) scaled := by
  obtain ⟨resources, hresources⟩ := buildResourceRequirementsTyped_succeeds parsed
  refine ⟨_, buildContainers_eq hresources, podSpec rt, ?_, ?_, ?_⟩
  · simp [buildScaledJob, Json.at?, lookup_cons_ite]
  · have containers : Alike (SameText parse)
        (.arr ([agentContainer rt resources, proxySidecar rt].map encodeContainer))
        (.arr [workerContainer rt, proxyContainer rt]) := by
      refine Json.alike_arr rfl fun i x y hx hy => ?_
      match i with
      | 0 =>
        cases hx
        cases hy
        exact alike_agent canonical hresources
      | 1 =>
        cases hx
        cases hy
        exact alike_proxy rt
      | i + 2 => cases hx
    simpa [encodePodSpec, podSpec, desiredDeployment, Json.get] using containers
  · have secrets := Json.alike_ofSlice (alike_arr_of_forall₂ (fun _ => rfl)
      (alike_imagePullSecrets rt.spec.container.imagePullSecrets))
    simpa [encodePodSpec, podSpec, desiredDeployment, imagePullSecretsUnstructured, Json.get,
      List.lookup_append, lookup_cons_ite] using secrets

/-- A parser that knows one text which is not canonical. -/
def halves : QuantityParser := fun s =>
  if s = "" then .error (.new "quantities must match the regular expression")
  else if s = "0.5" then .ok { canonical := "500m" }
  else .ok { canonical := s }

theorem halves_canonical : Canonical halves where
  reread s q h := by
    unfold halves at h ⊢
    split_ifs at h <;> cases h <;> simp_all
  nonempty q h := by simp [halves] at h

/-- A runtime with every kind of environment variable. -/
def furnished : AgentRuntime :=
  { worker with
    spec := { worker.spec with
      container := { worker.spec.container with
        resources := some { requests := some { cpu := "0.5" }, limits := some {} }
        imagePullSecrets := ["registry"] }
      contextManagement := some { resurrection := some { fullThreshold := 3 } }
      env := [{ name := "EMPTY" }, { name := "DROPPED", valueFrom := some {} },
        { name := "KEY"
          valueFrom := some { secretKeyRef := some { name := "s", key := "k" } } }] } }

theorem same_pod_furnished : ∃ containers,
    buildContainers halves furnished (a2aPort furnished) = .ok containers ∧
      ∃ scaled, (buildScaledJob furnished "job").at? ["spec", "jobTargetRef", "template", "spec"] =
          some scaled ∧
        SamePod halves (encodePodSpec (desiredDeployment furnished containers).spec) scaled := by
  refine same_pod halves_canonical (fun s hs => ?_) "job"
  have : s = "0.5" := by simpa [quantities, furnished] using hs
  exact ⟨{ canonical := "500m" }, by rw [this]; rfl⟩

end Pod

end Daedalus.Operator
