import Daedalus.Operator.Cluster

/-!
# Reconciling an agent runtime

`AgentRuntimeReconciler.Reconcile` of `operator/internal/controller/agentruntime_controller.go`, as
a program over the Kubernetes API, and the system it is part of: the spec of the runtime is edited
at any time, and `Reconcile` is called again and again, one call after the other. Conditions and the
observed generation are added in `Operator.Conditions`; logging is left out. Setting an owner
reference on a new object and encoding the registry entry do not fail.
-/
namespace Daedalus.Operator

open Foundation Prog

abbrev Proc := Prog Op Ans

abbrev getRuntime : Proc (Got AgentRuntime) := perform Op.getRuntime
abbrev get (k : Kind) (key : Key) : Proc (Got (Obj k)) := perform (Op.get k key)
abbrev create (k : Kind) (key : Key) (o : Obj k) : Proc (Option GoError) :=
  perform (Op.create k key o)
abbrev update (k : Kind) (key : Key) (o : Obj k) : Proc (Option GoError) :=
  perform (Op.update k key o)
abbrev delete (k : Kind) (key : Key) : Proc (Option GoError) := perform (Op.delete k key)
abbrev updateStatus (rt : AgentRuntime) : Proc (Option GoError) := perform (Op.updateStatus rt)

section Children

variable (k : Kind) (title : String) (key : Key) (desired : Obj k) (merge : Obj k → Obj k)
  (absent : Bool)

def createChild : Proc (Except GoError Unit) := do
  match ← create k key desired with
  | none => return .ok ()
  | some err => return .error (.wrap ("creating " ++ title) err)

def updateChild (existing : Obj k) : Proc (Except GoError Unit) := do
  match ← update k key (merge existing) with
  | none => return .ok ()
  | some err => return .error (.wrap ("updating " ++ title) err)

/-- Get an object, then create it or change it by `merge`. A kind that is not served counts as an
absent object if `absent` says so. -/
def createOrUpdate : Proc (Except GoError Unit) := do
  match ← get k key with
  | .found existing => updateChild k title key merge existing
  | .notFound => createChild k title key desired
  | .noMatch err =>
    if absent then createChild k title key desired
    else return .error (.wrap ("getting " ++ title) err)
  | .failed err => return .error (.wrap ("getting " ++ title) err)

/-- Delete an object if there is one. -/
def deleteIfExists : Proc (Except GoError Unit) := do
  match ← get k key with
  | .found _ =>
    match ← delete k key with
    | none => return .ok ()
    | some err => return .error err
  | .notFound => return .ok ()
  | .noMatch err => if absent then return .ok () else return .error err
  | .failed err => return .error err

end Children

/-- The status is set in memory once a child is in place. -/
def withStatus (rt : AgentRuntime) (status : AgentRuntimeStatus) (p : Proc (Except GoError Unit)) :
    Proc (Except GoError AgentRuntime) := do
  match ← p with
  | .ok () => return .ok { rt with status }
  | .error err => return .error err

/-! ## The child resources -/

def configMapKey (rt : AgentRuntime) : Key := ⟨rt.ns, rt.name ++ configMapSuffix⟩

def serviceKey (rt : AgentRuntime) : Key := ⟨rt.ns, rt.name ++ serviceSuffix⟩

def workloadKey (rt : AgentRuntime) : Key := ⟨rt.ns, rt.name⟩

def desiredConfigMap (rt : AgentRuntime) : ConfigMap where
  labels := childLabels rt
  controller := some rt.uid
  data := [("agent-registry.json", buildRegistryJSON rt)]

def reconcileConfigMap (rt : AgentRuntime) : Proc (Except GoError AgentRuntime) :=
  let desired := desiredConfigMap rt
  withStatus rt { rt.status with configMapName := (configMapKey rt).name } <|
    createOrUpdate .configMap "ConfigMap" (configMapKey rt) desired
      (fun existing : ConfigMap =>
        { existing with data := desired.data, labels := desired.labels })
      false

def desiredService (rt : AgentRuntime) : Service where
  labels := childLabels rt
  controller := some rt.uid
  type := "ClusterIP"
  selector := childLabels rt
  ports := [{ name := "a2a", protocol := "TCP", port := a2aPort rt, targetPort := a2aPort rt }]

def reconcileService (rt : AgentRuntime) : Proc (Except GoError AgentRuntime) :=
  let desired := desiredService rt
  withStatus rt { rt.status with serviceName := (serviceKey rt).name } <|
    createOrUpdate .service "Service" (serviceKey rt) desired
      (fun existing : Service =>
        { existing with
          ports := desired.ports, selector := desired.selector, labels := desired.labels })
      false

def deleteDeploymentIfExists (rt : AgentRuntime) : Proc (Except GoError Unit) :=
  deleteIfExists .deployment (workloadKey rt) false

def deleteScaledJobIfExists (rt : AgentRuntime) : Proc (Except GoError Unit) :=
  deleteIfExists .scaledJob (workloadKey rt) true

def desiredScaledJob (rt : AgentRuntime) : ScaledJob where
  controller := some rt.uid
  object := buildScaledJob rt rt.name

/-- An update replaces the whole object. -/
def reconcileScaledJob (rt : AgentRuntime) : Proc (Except GoError AgentRuntime) :=
  let desired := desiredScaledJob rt
  withStatus rt { rt.status with scaledJobName := rt.name } <|
    createOrUpdate .scaledJob "ScaledJob" (workloadKey rt) desired (fun _ => desired) true

def deploymentReplicas (rt : AgentRuntime) : ℤ := (rt.spec.scaling.bind (·.replicas)).getD 1

def desiredDeployment (rt : AgentRuntime) (containers : List Container) : Deployment where
  labels := childLabels rt
  controller := some rt.uid
  spec :=
    { replicas := deploymentReplicas rt
      selector := childLabels rt
      podLabels := childLabels rt
      containers
      imagePullSecrets := rt.spec.container.imagePullSecrets }

section Workload

variable (parse : QuantityParser)

def reconcileDeployment (rt : AgentRuntime) : Proc (Except GoError AgentRuntime) :=
  match buildContainers parse rt (a2aPort rt) with
  | .error err => return .error (.wrap "building containers" err)
  | .ok containers =>
    let desired := desiredDeployment rt containers
    withStatus rt { rt.status with scaledJobName := "" } <|
      createOrUpdate .deployment "Deployment" (workloadKey rt) desired
        (fun existing : Deployment =>
          { existing with spec := desired.spec, labels := desired.labels })
        false

/-- The scaling mode, `ScaledJob` when unset. -/
def scalingMode (rt : AgentRuntime) : String :=
  match rt.spec.scaling with
  | some scaling => if scaling.mode ≠ "" then scaling.mode else "ScaledJob"
  | none => "ScaledJob"

def reconcileWorkload (rt : AgentRuntime) : Proc (Except GoError AgentRuntime) := do
  if scalingMode rt = "ScaledJob" then
    match ← deleteDeploymentIfExists rt with
    | .error err => return .error err
    | .ok () => reconcileScaledJob rt
  else if scalingMode rt = "Static" then
    match ← deleteScaledJobIfExists rt with
    | .error err => return .error err
    | .ok () => reconcileDeployment parse rt
  else return .error (.new ("unsupported scaling mode: " ++ scalingMode rt))

/-- The child resources one after another, up to the first error. -/
def reconcileChildren (rt : AgentRuntime) : Proc (AgentRuntime × Option GoError) := do
  match ← reconcileConfigMap rt with
  | .error err => return (rt, some (.wrap "reconciling ConfigMap" err))
  | .ok rt =>
    match ← reconcileService rt with
    | .error err => return (rt, some (.wrap "reconciling Service" err))
    | .ok rt =>
      match ← reconcileWorkload parse rt with
      | .error err => return (rt, some (.wrap "reconciling workload" err))
      | .ok rt => return (rt, none)

def reconcile : Proc (Except GoError Unit) := do
  match ← getRuntime with
  | .notFound => return .ok ()
  | .noMatch err | .failed err => return .error (.wrap "fetching AgentRuntime" err)
  | .found rt =>
    let (rt, reconcileErr) ← reconcileChildren parse rt
    match ← updateStatus rt with
    | some err => return .error (.wrap "updating status" err)
    | none =>
      match reconcileErr with
      | some err => return .error err
      | none => return .ok ()

end Workload

/-! ## The system -/

/-- Someone changes the spec of the runtime. -/
def Cluster.edit (c : Cluster) (spec : AgentRuntimeSpec) : Cluster :=
  c.changeRuntime ({ · with spec })

abbrev System := Loop Op Ans Cluster (Except GoError Unit)

abbrev SystemAct := Loop.Act AgentRuntimeSpec Fate

def systemStep (parse : QuantityParser) : System → SystemAct → Option System :=
  Loop.step api Cluster.edit (reconcile parse)

/-- `Reconcile` is called and every API call of it succeeds. -/
def undisturbed (calls : ℕ) : List SystemAct := .start :: List.replicate calls (.call .done)

/-- A runtime that leaves everything it can to the defaults. -/
def worker : AgentRuntime where
  name := "worker"
  ns := "agents"
  uid := "w1"
  spec := { container := { image := "worker:v1" }, queue := { subject := "agent.tasks.worker" } }

/-- For runtimes without resource quantities. -/
def refuseQuantity : QuantityParser := fun text => .error (.new ("unable to parse " ++ text))

example : (run (systemStep refuseQuantity) ⟨⟨some worker, fun _ _ => none⟩, none⟩
    (undisturbed 9)).map (·.result.isSome) = some true := by decide

/-! ## What others do -/

/-- The same object of the cluster, perhaps in another version. -/
structure SameRuntime (rt rt' : AgentRuntime) : Prop where
  name : rt'.name = rt.name
  ns : rt'.ns = rt.ns
  uid : rt'.uid = rt.uid

theorem SameRuntime.trans {rt rt' rt'' : AgentRuntime} (h : SameRuntime rt rt')
    (h' : SameRuntime rt' rt'') : SameRuntime rt rt'' :=
  ⟨h'.name.trans h.name, h'.ns.trans h.ns, h'.uid.trans h.uid⟩

/-- The same runtime later: its version tells whether it was changed. -/
structure Edited (rt rt' : AgentRuntime) : Prop extends SameRuntime rt rt' where
  le : rt.resourceVersion ≤ rt'.resourceVersion
  unchanged : rt'.resourceVersion = rt.resourceVersion → rt' = rt

theorem Edited.refl (rt : AgentRuntime) : Edited rt rt :=
  ⟨⟨rfl, rfl, rfl⟩, le_rfl, fun _ => rfl⟩

theorem Edited.trans {rt rt' rt'' : AgentRuntime} (h : Edited rt rt') (h' : Edited rt' rt'') :
    Edited rt rt'' := by
  refine ⟨h.toSameRuntime.trans h'.toSameRuntime, h.le.trans h'.le, ?_⟩
  intro same
  have first : rt'.resourceVersion = rt.resourceVersion := by
    have := h.le
    have := h'.le
    omega
  rw [h'.unchanged (same.trans first.symm), h.unchanged first]

/-- The runtime is `rt`, perhaps edited. -/
def Cluster.Holds (c : Cluster) (rt : AgentRuntime) : Prop := ∃ rt' ∈ c.runtime, Edited rt rt'

/-- What others may do: edit the runtime. -/
structure Rely (c c' : Cluster) : Prop where
  objects : c'.objects = c.objects
  holds : ∀ rt, c.Holds rt → c'.Holds rt

theorem Rely.refl (c : Cluster) : Rely c c := ⟨rfl, fun _ => id⟩

theorem Rely.trans (c c' c'' : Cluster) (h : Rely c c') (h' : Rely c' c'') : Rely c c'' :=
  ⟨h'.objects.trans h.objects, fun rt hrt => h'.holds rt (h.holds rt hrt)⟩

/-- A change that keeps the identity of the runtime is within `Rely`. -/
theorem rely_changeRuntime {c : Cluster} {change : AgentRuntime → AgentRuntime}
    (keeps : ∀ rt, SameRuntime rt (change rt)) : Rely c (c.changeRuntime change) := by
  refine ⟨rfl, ?_⟩
  rintro rt ⟨rt', hrt', hedited⟩
  obtain ⟨name, ns, uid⟩ := keeps rt'
  refine ⟨_, Option.map_eq_some_iff.mpr ⟨rt', hrt', rfl⟩, hedited.trans ⟨⟨name, ns, uid⟩, ?_, ?_⟩⟩
  · exact Nat.le_succ _
  · intro same
    exact absurd same (Nat.succ_ne_self _)

theorem rely_edit (c : Cluster) (spec : AgentRuntimeSpec) : Rely c (c.edit spec) :=
  rely_changeRuntime fun _ => ⟨rfl, rfl, rfl⟩

/-! ## What the children's procedures keep -/

section Keeps

variable {rely : Cluster → Cluster → Prop} {Inv : Cluster → Prop} {k : Kind} {title : String}
  {key : Key} {desired : Obj k} {merge : Obj k → Obj k} {absent : Bool} {c : Cluster}

/-- A call that writes an object and may fail on the way, and what is made of its answer. -/
def Writes (k : Kind) (key : Key) (o : Option (Obj k)) (op : Op)
    (next : Ans op → Proc (Except GoError Unit)) : Prop :=
  ∀ c t fate ans, api op c fate = some (t, ans) →
    (t = c ∧ ∃ err, next ans = pure (.error err)) ∨ (t = c.set k key o ∧ ∃ r, next ans = pure r)

section Others

variable (stable : ∀ c c', rely c c' → Inv c → Inv c')

include stable

theorem Writes.keeps {o : Option (Obj k)} {op : Op} {next : Ans op → Proc (Except GoError Unit)}
    (writes : Writes k key o op next) (written : ∀ c, Inv c → Inv (c.set k key o)) (h : Inv c) :
    (perform op >>= next).Keeps api rely Inv (fun c r => r = .ok () → c.objects k key = o) c := by
  refine keeps_call stable h ?_
  intro u fate t ans _ hu hapi
  obtain ⟨rfl, err, hnext⟩ | ⟨rfl, r, hnext⟩ := writes u t fate ans hapi
  · rw [hnext]
    exact ⟨hu, nofun⟩
  · rw [hnext]
    exact ⟨written u hu, fun _ => Cluster.set_self⟩

theorem createChild_keeps (written : ∀ c, Inv c → Inv (c.set k key (some desired))) (h : Inv c) :
    (createChild k title key desired).Keeps api rely Inv
      (fun c r => r = .ok () → c.objects k key = some desired) c := by
  refine Writes.keeps stable ?_ written h
  intro c t fate ans hapi
  obtain ⟨rfl, err, rfl⟩ | ⟨-, rfl⟩ := write_cases hapi
  · exact .inl ⟨rfl, _, rfl⟩
  · cases ans with
    | none => exact .inr ⟨rfl, _, rfl⟩
    | some err => exact .inr ⟨rfl, _, rfl⟩

theorem updateChild_keeps {existing : Obj k}
    (written : ∀ c, Inv c → Inv (c.set k key (some (merge existing)))) (h : Inv c) :
    (updateChild k title key merge existing).Keeps api rely Inv
      (fun c r => r = .ok () → c.objects k key = some (merge existing)) c := by
  refine Writes.keeps stable ?_ written h
  intro c t fate ans hapi
  obtain ⟨rfl, err, rfl⟩ | ⟨-, rfl⟩ := write_cases hapi
  · exact .inl ⟨rfl, _, rfl⟩
  · cases ans with
    | none => exact .inr ⟨rfl, _, rfl⟩
    | some err => exact .inr ⟨rfl, _, rfl⟩

/-- `Good` says what is known of the object that is written. -/
theorem createOrUpdate_spec (Good : Obj k → Prop)
    (fresh : ∀ c, Inv c → c.objects k key = none → Good desired)
    (merged : ∀ c o, Inv c → c.objects k key = some o → Good (merge o))
    (written : ∀ c o, Inv c → Good o → Inv (c.set k key (some o))) (h : Inv c) :
    (createOrUpdate k title key desired merge absent).Keeps api rely Inv
      (fun c r => r = .ok () → ∃ o, c.objects k key = some o ∧ Good o) c := by
  have creates {c : Cluster} (h : Inv c) (good : Good desired) :
      (createChild k title key desired).Keeps api rely Inv
        (fun c r => r = .ok () → ∃ o, c.objects k key = some o ∧ Good o) c :=
    (createChild_keeps stable (fun c hc => written c desired hc good) h).mono (fun _ => id)
      fun _ _ _ done ok => ⟨desired, done ok, good⟩
  refine keeps_call stable h ?_
  intro u fate t ans _ hu hapi
  obtain ⟨rfl, ⟨o, ho, rfl⟩ | ⟨hnone, rfl | ⟨err, rfl⟩⟩ | ⟨err, rfl⟩⟩ := api_get hapi
  · have good := merged t o hu ho
    refine (updateChild_keeps stable (fun c hc => written c _ hc good) hu).mono (fun _ => id) ?_
    exact fun _ _ _ done ok => ⟨merge o, done ok, good⟩
  · exact creates hu (fresh t hu hnone)
  · cases absent with
    | true => exact creates hu (fresh t hu hnone)
    | false => exact ⟨hu, nofun⟩
  · exact ⟨hu, nofun⟩

theorem deleteIfExists_spec
    (removed : ∀ c, Inv c → (c.objects k key).isSome → ∀ c', Inv c' → Inv (c'.set k key none))
    (h : Inv c) :
    (deleteIfExists k key absent).Keeps api rely Inv
      (fun c r => r = .ok () → c.objects k key = none) c := by
  refine keeps_call stable h ?_
  intro u fate t ans _ hu hapi
  obtain ⟨rfl, ⟨o, ho, rfl⟩ | ⟨ho, rfl | ⟨err, rfl⟩⟩ | ⟨err, rfl⟩⟩ := api_get hapi
  · refine Writes.keeps stable ?_ (removed t hu (by simp [ho])) hu
    intro c t fate ans hapi
    obtain ⟨rfl, err, rfl⟩ | ⟨-, rfl⟩ := write_cases hapi
    · exact .inl ⟨rfl, _, rfl⟩
    · cases ans with
      | none => exact .inr ⟨rfl, _, rfl⟩
      | some err => exact .inr ⟨rfl, _, rfl⟩
  · exact ⟨hu, fun _ => ho⟩
  · cases absent with
    | true => exact ⟨hu, fun _ => ho⟩
    | false => exact ⟨hu, nofun⟩
  · exact ⟨hu, nofun⟩

end Others

variable (stable : ∀ c c', Rely c c' → Inv c → Inv c')

include stable

/-- Where others do no more than edit the runtime. -/
theorem createOrUpdate_keeps (Good : Obj k → Prop) (fresh : Good desired)
    (merged : ∀ c o, Inv c → c.objects k key = some o → Good (merge o))
    (written : ∀ c o, Inv c → Good o → Inv (c.set k key (some o))) (h : Inv c) :
    (createOrUpdate k title key desired merge absent).Keeps api Rely Inv
      (fun c r => r = .ok () → ∃ o, c.objects k key = some o ∧ Good o) c :=
  createOrUpdate_spec stable Good (fun _ _ _ => fresh) merged written h

theorem deleteIfExists_keeps (removed : ∀ c, Inv c → Inv (c.set k key none)) (h : Inv c) :
    (deleteIfExists k key absent).Keeps api Rely Inv
      (fun c r => r = .ok () → c.objects k key = none) c :=
  deleteIfExists_spec stable (fun _ _ _ => removed) h

omit stable in
theorem withStatus_keeps {rt : AgentRuntime} {status : AgentRuntimeStatus}
    {p : Proc (Except GoError Unit)} {Done : Cluster → Prop}
    (h : p.Keeps api rely Inv (fun c r => r = .ok () → Done c) c) :
    (withStatus rt status p).Keeps api rely Inv
      (fun c r => ∀ rt', r = .ok rt' → rt' = { rt with status } ∧ Done c) c := by
  refine Keeps.bind (h.mono (fun _ => id) ?_)
  intro c r hc done
  cases r with
  | error err => exact keeps_error hc
  | ok _ =>
    refine keeps_pure.mpr ⟨hc, ?_⟩
    intro rt' e
    cases e
    exact ⟨rfl, done rfl⟩

/-- `Reconcile` as a whole. `Done` is what the children's procedures achieve for the runtime they
return; an edit by others must not undo it. -/
theorem reconcile_keeps {parse : QuantityParser} (Done : AgentRuntime → Cluster → Prop)
    {post : Cluster → Prop} (stableDone : ∀ c c' rt, Rely c c' → Done rt c → Done rt c')
    (missing : ∀ c, Inv c → c.runtime = none → post c)
    (children : ∀ c rt, Inv c → c.runtime = some rt →
      (reconcileChildren parse rt).Keeps api Rely Inv (fun c x => x.2 = none → Done x.1 c) c)
    (updated : ∀ c rt, Inv c → Done rt c → c.runtime.any (·.resourceVersion == rt.resourceVersion) →
      post (c.changeRuntime ({ · with status := rt.status })))
    (h : Inv c) :
    (reconcile parse).Keeps api Rely Inv (fun c r => r = .ok () → post c) c := by
  refine keeps_call stable h ?_
  intro u fate t ans _ hu hapi
  obtain ⟨rfl, ⟨hnone, rfl⟩ | ⟨rt, hrt, rfl⟩ | ⟨err, rfl⟩⟩ := api_getRuntime hapi
  · exact ⟨hu, fun _ => missing t hu hnone⟩
  · refine Keeps.bind ((children t rt hu hrt).mono (fun _ => id) ?_)
    rintro c ⟨rt, reconcileErr⟩ hc done
    refine keeps_call stable hc ?_
    intro u fate t ans hrely hu hapi
    obtain ⟨rfl, err, rfl⟩ | ⟨same, rfl⟩ := write_cases hapi
    · exact ⟨hu, nofun⟩
    · have ht : Inv (u.changeRuntime ({ · with status := rt.status })) :=
        stable u _ (rely_changeRuntime fun _ => ⟨rfl, rfl, rfl⟩) hu
      cases ans with
      | some err => exact ⟨ht, nofun⟩
      | none =>
        cases reconcileErr with
        | some err => exact ⟨ht, nofun⟩
        | none => exact ⟨ht, fun _ => updated u rt hu (stableDone c u rt hrely (done rfl)) same⟩
  · exact ⟨hu, nofun⟩

end Keeps

end Daedalus.Operator
