import Daedalus.Operator.Exclusive
import Daedalus.Operator.ModelConfig

/-!
# Convergence

What the spec of a runtime asks of the cluster, and that one undisturbed call of `Reconcile` brings
it about, whatever others, earlier specs and failed calls have left behind. Once it is reached,
`Reconcile` writes what is there already, however its calls end. A credential that
`ModelConfigReconciler` passes on by an annotation of the runtime is not part of what a spec asks
for, so it reaches no child.
-/
namespace Daedalus.Operator

open Foundation Prog

/-! ## What a spec asks for -/

/-- The workload can be built: its mode is known, and its quantities where they are parsed. -/
def Deployable (parse : QuantityParser) (rt : AgentRuntime) : Prop :=
  scalingMode rt = "ScaledJob" ∨
    scalingMode rt = "Static" ∧ ∃ containers, buildContainers parse rt (a2aPort rt) = .ok containers

/-- The children are as the spec asks. Nothing is said about what `Reconcile` leaves alone in an
existing object: its controller, and the type of a Service. -/
structure Converged (parse : QuantityParser) (rt : AgentRuntime) (c : Cluster) : Prop where
  configMap : ∃ cm : ConfigMap, c.objects .configMap (configMapKey rt) = some cm ∧
    cm.data = (desiredConfigMap rt).data ∧ cm.labels = (desiredConfigMap rt).labels
  service : ∃ svc : Service, c.objects .service (serviceKey rt) = some svc ∧
    svc.ports = (desiredService rt).ports ∧ svc.selector = (desiredService rt).selector ∧
    svc.labels = (desiredService rt).labels
  workload :
    (scalingMode rt = "ScaledJob" ∧ c.objects .deployment (workloadKey rt) = none ∧
      c.objects .scaledJob (workloadKey rt) = some (desiredScaledJob rt)) ∨
    (scalingMode rt = "Static" ∧ c.objects .scaledJob (workloadKey rt) = none ∧
      ∃ containers, ∃ d : Deployment, buildContainers parse rt (a2aPort rt) = .ok containers ∧
        c.objects .deployment (workloadKey rt) = some d ∧
        d.spec = (desiredDeployment rt containers).spec ∧
        d.labels = (desiredDeployment rt containers).labels)

/-- The name of the ScaledJob in the status; a runtime that has none has none to name. -/
def scaledJobName (rt : AgentRuntime) : String :=
  if scalingMode rt = "ScaledJob" then rt.name else ""

/-- The status that names the children. -/
def namedStatus (rt : AgentRuntime) : AgentRuntimeStatus where
  scaledJobName := scaledJobName rt
  configMapName := (configMapKey rt).name
  serviceName := (serviceKey rt).name

/-- The runtime is `rt`, perhaps with other annotations or another status: its spec is the same. -/
def Cluster.Asks (c : Cluster) (rt : AgentRuntime) : Prop :=
  ∃ resourceVersion annotations status,
    c.runtime = some { rt with resourceVersion, annotations, status }

theorem Cluster.asks_of_eq_some {c : Cluster} {rt : AgentRuntime} (h : c.runtime = some rt) :
    c.Asks rt :=
  ⟨_, _, _, h⟩

/-- No call changes the spec. -/
theorem asks_api {rt : AgentRuntime} {op : Op} {c t : Cluster} {fate : Fate} {ans : Ans op}
    (h : c.Asks rt) (hapi : api op c fate = some (t, ans)) : t.Asks rt := by
  obtain ⟨version, annotations, status, hc⟩ := h
  obtain same | ⟨status', hstatus⟩ := api_runtime hapi
  · exact ⟨version, annotations, status, same.trans hc⟩
  · refine ⟨version + 1, annotations, status', hstatus.trans ?_⟩
    simp [Cluster.changeRuntime, hc]

/-! ## The effect of an undisturbed call -/

/-- The object is created, or the existing one is changed. -/
def Cluster.upsert (c : Cluster) (k : Kind) (key : Key) (desired : Obj k) (merge : Obj k → Obj k) :
    Cluster :=
  c.set k key (some ((c.objects k key).elim desired merge))

def withConfigMap (rt : AgentRuntime) (c : Cluster) : Cluster :=
  c.upsert .configMap (configMapKey rt) (desiredConfigMap rt) fun existing : ConfigMap =>
    { existing with data := (desiredConfigMap rt).data, labels := (desiredConfigMap rt).labels }

def withService (rt : AgentRuntime) (c : Cluster) : Cluster :=
  c.upsert .service (serviceKey rt) (desiredService rt) fun existing : Service =>
    { existing with
      ports := (desiredService rt).ports
      selector := (desiredService rt).selector
      labels := (desiredService rt).labels }

def withScaledJob (rt : AgentRuntime) (c : Cluster) : Cluster :=
  (c.set .deployment (workloadKey rt) none).upsert .scaledJob (workloadKey rt) (desiredScaledJob rt)
    fun _ => desiredScaledJob rt

def withDeployment (rt : AgentRuntime) (containers : List Container) (c : Cluster) : Cluster :=
  (c.set .scaledJob (workloadKey rt) none).upsert .deployment (workloadKey rt)
    (desiredDeployment rt containers) fun existing : Deployment =>
      { existing with
        spec := (desiredDeployment rt containers).spec
        labels := (desiredDeployment rt containers).labels }

/-- `t` is the cluster `c` with the workload that the spec asks for. -/
def WithWorkload (parse : QuantityParser) (rt : AgentRuntime) (c t : Cluster) : Prop :=
  scalingMode rt = "ScaledJob" ∧ t = withScaledJob rt c ∨
    scalingMode rt = "Static" ∧ ∃ containers,
      buildContainers parse rt (a2aPort rt) = .ok containers ∧ t = withDeployment rt containers c

section Undisturbed

variable {parse : QuantityParser} {rt : AgentRuntime} {c t : Cluster} {k k' : Kind} {key key' : Key}

theorem Cluster.set_eq_self {o : Option (Obj k)} (h : c.objects k key = o) : c.set k key o = c := by
  subst h
  simp [Cluster.set]

theorem Cluster.upsert_self {desired : Obj k} {merge : Obj k → Obj k} :
    (c.upsert k key desired merge).objects k key = some ((c.objects k key).elim desired merge) :=
  Cluster.set_self

theorem Cluster.upsert_of_ne_kind {desired : Obj k} {merge : Obj k → Obj k} (h : k' ≠ k) :
    (c.upsert k key desired merge).objects k' key' = c.objects k' key' :=
  Cluster.set_of_ne_kind h

/-- What the fresh object and the changed one have in common. -/
theorem Cluster.upsert_spec {desired : Obj k} {merge : Obj k → Obj k} (Good : Obj k → Prop)
    (fresh : Good desired) (merged : ∀ o, Good (merge o)) :
    ∃ o, (c.upsert k key desired merge).objects k key = some o ∧ Good o := by
  refine ⟨_, Cluster.upsert_self, ?_⟩
  cases c.objects k key with
  | none => exact fresh
  | some o => exact merged o

theorem createOrUpdate_settles (title : String) (desired : Obj k) (merge : Obj k → Obj k)
    (absent : Bool) :
    (createOrUpdate k title key desired merge absent).Settles api .done 2 c
      (c.upsert k key desired merge) (.ok ()) := by
  unfold Cluster.upsert
  cases ho : c.objects k key with
  | none =>
    have got : api (.get k key) c .done = some (c, .notFound) := by simp [api, ho]
    have created : api (.create k key desired) c .done =
        some (c.set k key (some desired), none) := by
      simp [api, write, ho]
    exact settles_call got (settles_call created settles_pure)
  | some o =>
    have got : api (.get k key) c .done = some (c, .found o) := by simp [api, ho]
    have updated : api (.update k key (merge o)) c .done =
        some (c.set k key (some (merge o)), none) := by
      simp [api, write, ho]
    exact settles_call got (settles_call updated settles_pure)

theorem deleteIfExists_settles (absent : Bool) : ∃ n ≤ 2,
    (deleteIfExists k key absent).Settles api .done n c (c.set k key none) (.ok ()) := by
  cases ho : c.objects k key with
  | none =>
    have got : api (.get k key) c .done = some (c, .notFound) := by simp [api, ho]
    rw [Cluster.set_eq_self ho]
    exact ⟨1, by omega, settles_call got settles_pure⟩
  | some o =>
    have got : api (.get k key) c .done = some (c, .found o) := by simp [api, ho]
    have deleted : api (.delete k key) c .done = some (c.set k key none, none) := by
      simp [api, write, ho]
    exact ⟨2, le_rfl, settles_call got (settles_call deleted settles_pure)⟩

theorem withStatus_settles {status : AgentRuntimeStatus} {p : Proc (Except GoError Unit)} {n : ℕ}
    (h : p.Settles api .done n c t (.ok ())) :
    (withStatus rt status p).Settles api .done n c t (.ok { rt with status }) := by
  refine Settles.bind (m := 0) h ?_
  exact settles_pure

/-- The workload is brought about, whatever was there. -/
theorem reconcileWorkload_settles (rt : AgentRuntime) (deployable : Deployable parse rt)
    (c : Cluster) :
    ∃ n ≤ 4, ∃ t, WithWorkload parse rt c t ∧ (reconcileWorkload parse rt).Settles api .done n c t
      (.ok { rt with status := { rt.status with scaledJobName := scaledJobName rt } }) := by
  unfold reconcileWorkload scaledJobName
  rcases deployable with mode | ⟨mode, containers, built⟩
  · obtain ⟨n, hn, deleted⟩ : ∃ n ≤ 2, (deleteDeploymentIfExists rt).Settles api .done n c _ _ :=
      deleteIfExists_settles false
    rw [if_pos mode, if_pos mode]
    refine ⟨n + 2, by omega, _, .inl ⟨mode, rfl⟩, deleted.bind ?_⟩
    exact withStatus_settles (createOrUpdate_settles ..)
  · obtain ⟨n, hn, deleted⟩ : ∃ n ≤ 2, (deleteScaledJobIfExists rt).Settles api .done n c _ _ :=
      deleteIfExists_settles true
    have other : ¬ scalingMode rt = "ScaledJob" := by
      rw [mode]
      decide
    rw [if_neg other, if_neg other, if_pos mode]
    refine ⟨n + 2, by omega, _, .inr ⟨mode, containers, built, rfl⟩, deleted.bind ?_⟩
    simp only [reconcileDeployment, built]
    exact withStatus_settles (createOrUpdate_settles ..)

theorem reconcileChildren_settles (deployable : Deployable parse rt) (c : Cluster) :
    ∃ n ≤ 8, ∃ t, WithWorkload parse rt (withService rt (withConfigMap rt c)) t ∧
      (reconcileChildren parse rt).Settles api .done n c t
        ({ rt with status := namedStatus rt }, none) := by
  -- the procedures differ in the status of the runtime they are given, which they do not read
  let rt₂ : AgentRuntime := { rt with status :=
    { rt.status with
      configMapName := (configMapKey rt).name, serviceName := (serviceKey rt).name } }
  obtain ⟨n, hn, t, ht, workload⟩ := reconcileWorkload_settles rt₂ deployable
    (withService rt (withConfigMap rt c))
  refine ⟨2 + (2 + n), by omega, t, ht, ?_⟩
  refine Settles.bind (withStatus_settles (createOrUpdate_settles ..)) ?_
  refine Settles.bind (withStatus_settles (createOrUpdate_settles ..)) ?_
  refine Settles.bind (m := 0) workload ?_
  exact settles_pure

theorem WithWorkload.runtime (h : WithWorkload parse rt c t) : t.runtime = c.runtime := by
  obtain ⟨-, rfl⟩ | ⟨-, containers, -, rfl⟩ := h
  · rfl
  · rfl

theorem WithWorkload.objects (h : WithWorkload parse rt c t) (hd : k ≠ .deployment)
    (hj : k ≠ .scaledJob) : t.objects k key = c.objects k key := by
  obtain ⟨-, rfl⟩ | ⟨-, containers, -, rfl⟩ := h
  · exact (Cluster.upsert_of_ne_kind hj).trans (Cluster.set_of_ne_kind hd)
  · exact (Cluster.upsert_of_ne_kind hd).trans (Cluster.set_of_ne_kind hj)

theorem WithWorkload.converged (h : WithWorkload parse rt (withService rt (withConfigMap rt c)) t) :
    Converged parse rt t where
  configMap := by
    have other : Kind.configMap ≠ .service := by decide
    rw [h.objects (by decide) (by decide), withService, Cluster.upsert_of_ne_kind other]
    exact Cluster.upsert_spec (k := .configMap) (fun cm => ConfigMap.data cm = _ ∧ _) ⟨rfl, rfl⟩
      fun _ => ⟨rfl, rfl⟩
  service := by
    rw [h.objects (by decide) (by decide)]
    exact Cluster.upsert_spec (k := .service) (fun svc => Service.ports svc = _ ∧ _ ∧ _)
      ⟨rfl, rfl, rfl⟩ fun _ => ⟨rfl, rfl, rfl⟩
  workload := by
    obtain ⟨mode, rfl⟩ | ⟨mode, containers, built, rfl⟩ := h
    · refine .inl ⟨mode, (Cluster.upsert_of_ne_kind (by decide)).trans Cluster.set_self, ?_⟩
      refine Cluster.upsert_self.trans (congrArg some ?_)
      cases Cluster.objects _ .scaledJob (workloadKey rt) <;> rfl
    · obtain ⟨d, hd, spec, labels⟩ : ∃ d : Deployment, (withDeployment rt containers
          (withService rt (withConfigMap rt c))).objects .deployment (workloadKey rt) = some d ∧
          d.spec = (desiredDeployment rt containers).spec ∧
          d.labels = (desiredDeployment rt containers).labels :=
        Cluster.upsert_spec (k := .deployment) (fun d => Deployment.spec d = _ ∧ _) ⟨rfl, rfl⟩
          fun _ => ⟨rfl, rfl⟩
      refine .inr ⟨mode, (Cluster.upsert_of_ne_kind (by decide)).trans Cluster.set_self, ?_⟩
      exact ⟨containers, d, built, hd, spec, labels⟩

theorem Converged.congr_objects {c c' : Cluster} (h : Converged parse rt c)
    (same : c'.objects = c.objects) : Converged parse rt c' where
  configMap := same ▸ h.configMap
  service := same ▸ h.service
  workload := same ▸ h.workload

/-- `Reconcile` without interference. -/
theorem reconcile_settles (rt : AgentRuntime) (present : c.runtime = some rt)
    (deployable : Deployable parse rt) :
    ∃ n ≤ 10, ∃ t, (reconcile parse).Settles api .done n c t (.ok ()) ∧ Converged parse rt t ∧
      ∃ rt', t.runtime = some rt' ∧ rt'.spec = rt.spec ∧ rt'.status = namedStatus rt := by
  obtain ⟨n, hn, t, ht, children⟩ := reconcileChildren_settles deployable c
  have hruntime : t.runtime = some rt := ht.runtime.trans present
  have got : api .getRuntime c .done = some (c, .found rt) := by simp [api, present]
  have updated : api (.updateStatus { rt with status := namedStatus rt }) t .done =
      some (t.changeRuntime ({ · with status := namedStatus rt }), none) := by
    simp [api, write, hruntime]
  refine ⟨(n + 1) + 1, by omega, t.changeRuntime ({ · with status := namedStatus rt }), ?_,
    ht.converged.congr_objects rfl, ?_⟩
  · exact settles_call got (children.bind (settles_call updated settles_pure))
  · exact ⟨_, Option.map_eq_some_iff.mpr ⟨rt, hruntime, rfl⟩, rfl, rfl⟩

end Undisturbed

theorem api_done_isSome (op : Op) (c : Cluster) : (api op c .done).isSome := by
  cases op <;> rfl

/-- What others do while a credential is rotated: the runtime is annotated with a hash. -/
def Cluster.rotate (c : Cluster) (hash : String) : Cluster :=
  c.changeRuntime (Rotation.annotate · hash)

/-- The two controllers at work: one reconciles the runtime again and again, the other one
annotates it at any time. -/
def rotatingStep (parse : QuantityParser) : System → Loop.Act String Fate → Option System :=
  Loop.step api Cluster.rotate (reconcile parse)

/-- No object is changed, and the spec is not. -/
structure Same (rt : AgentRuntime) (c₀ c : Cluster) : Prop where
  objects : c.objects = c₀.objects
  asks : c.Asks rt

/-- Others leave the objects and the spec alone. -/
def Leaves (c c' : Cluster) : Prop := ∀ rt c₀, Same rt c₀ c → Same rt c₀ c'

section Stays

variable {parse : QuantityParser} {rt rt' : AgentRuntime} {c₀ c t : Cluster} {k : Kind} {key : Key}

theorem leaves_rotate (c : Cluster) (hash : String) : Leaves c (c.rotate hash) := by
  rintro rt c₀ ⟨objects, version, annotations, status, asks⟩
  refine ⟨objects, version + 1,
    Table.store annotations Rotation.modelConfigHashAnnotation hash, status, ?_⟩
  simp [Cluster.rotate, Cluster.changeRuntime, Rotation.annotate, asks]

/-- A procedure that changes nothing, whatever becomes of its calls. -/
abbrev Idle (rt : AgentRuntime) (c₀ : Cluster) {α : Type} (post : α → Prop) (p : Proc α)
    (c : Cluster) : Prop :=
  p.Keeps api Leaves (Same rt c₀) (fun _ => post) c

theorem Same.leaves (c c' : Cluster) (h : Leaves c c') (hc : Same rt c₀ c) : Same rt c₀ c' :=
  h rt c₀ hc

/-- An update that writes what is there. -/
theorem createOrUpdate_idle {title : String} {desired : Obj k} {merge : Obj k → Obj k}
    {absent : Bool} {o : Obj k} (there : c₀.objects k key = some o) (kept : merge o = o)
    (h : Same rt c₀ c) :
    Idle rt c₀ (fun _ => True) (createOrUpdate k title key desired merge absent) c := by
  have found {c : Cluster} (hc : Same rt c₀ c) : c.objects k key = some o := by
    rw [hc.objects, there]
  refine (createOrUpdate_spec Same.leaves (· = o) ?_ ?_ ?_ h).mono (fun _ => id)
    fun _ _ _ _ => trivial
  · intro c hc hnone
    simp [found hc] at hnone
  · intro c o' hc ho'
    obtain rfl : o = o' := Option.some.inj ((found hc).symm.trans ho')
    exact kept
  · rintro c o' hc rfl
    rwa [Cluster.set_eq_self (found hc)]

theorem deleteIfExists_idle {absent : Bool} (gone : c₀.objects k key = none) (h : Same rt c₀ c) :
    Idle rt c₀ (fun _ => True) (deleteIfExists k key absent) c := by
  refine (deleteIfExists_spec Same.leaves ?_ h).mono (fun _ => id) fun _ _ _ _ => trivial
  intro c hc there
  simp [hc.objects, gone] at there

/-- The runtime that a procedure returns differs in its status only. -/
def SetsStatus (rt : AgentRuntime) (r : Except GoError AgentRuntime) : Prop :=
  ∀ rt', r = .ok rt' → OtherStatus rt rt'

theorem withStatus_idle {status : AgentRuntimeStatus} {p : Proc (Except GoError Unit)}
    (h : Idle rt c₀ (fun _ => True) p c) :
    Idle rt c₀ (SetsStatus rt') (withStatus rt' status p) c := by
  have done : p.Keeps api Leaves (Same rt c₀) (fun _ r => r = .ok () → True) c :=
    h.mono (fun _ => id) fun _ _ _ _ _ => trivial
  refine (withStatus_keeps done).mono (fun _ => id) ?_
  intro _ r _ returned rt'' hr
  exact ⟨status, (returned rt'' hr).1⟩

theorem reconcileConfigMap_idle (converged : Converged parse rt' c₀) (h : Same rt c₀ c) :
    Idle rt c₀ (SetsStatus rt') (reconcileConfigMap rt') c := by
  obtain ⟨cm, there, data, labels⟩ := converged.configMap
  refine withStatus_idle (createOrUpdate_idle (k := .configMap) there ?_ h)
  rw [← data, ← labels]

theorem reconcileService_idle (converged : Converged parse rt' c₀) (h : Same rt c₀ c) :
    Idle rt c₀ (SetsStatus rt') (reconcileService rt') c := by
  obtain ⟨svc, there, ports, selector, labels⟩ := converged.service
  refine withStatus_idle (createOrUpdate_idle (k := .service) there ?_ h)
  rw [← ports, ← selector, ← labels]

theorem reconcileWorkload_idle (converged : Converged parse rt' c₀) (h : Same rt c₀ c) :
    Idle rt c₀ (SetsStatus rt') (reconcileWorkload parse rt') c := by
  unfold reconcileWorkload
  obtain ⟨mode, gone, there⟩ | ⟨mode, gone, containers, d, built, there, spec, labels⟩ :=
    converged.workload
  · rw [if_pos mode]
    refine Keeps.bind ((deleteIfExists_idle gone h).mono (fun _ => id) ?_)
    intro c r hc _
    cases r with
    | error err => exact keeps_error hc
    | ok _ => exact withStatus_idle (createOrUpdate_idle (k := .scaledJob) there rfl hc)
  · have other : ¬ scalingMode rt' = "ScaledJob" := by
      rw [mode]
      decide
    rw [if_neg other, if_pos mode]
    refine Keeps.bind ((deleteIfExists_idle gone h).mono (fun _ => id) ?_)
    intro c r hc _
    cases r with
    | error err => exact keeps_error hc
    | ok _ =>
      simp only [reconcileDeployment, built]
      refine withStatus_idle (createOrUpdate_idle (k := .deployment) there ?_ hc)
      rw [← spec, ← labels]

/-- What the spec asks for does not depend on the status. -/
theorem Converged.of_status {status : AgentRuntimeStatus} (h : Converged parse rt c) :
    Converged parse { rt with status } c :=
  ⟨h.configMap, h.service, h.workload⟩

theorem reconcileChildren_idle (converged : Converged parse rt' c₀) (h : Same rt c₀ c) :
    Idle rt c₀ (fun _ => True) (reconcileChildren parse rt') c := by
  refine Keeps.bind ((reconcileConfigMap_idle converged h).mono (fun _ => id) ?_)
  intro c r hc returned
  cases r with
  | error err => exact ⟨hc, trivial⟩
  | ok rt₁ =>
    obtain ⟨status, rfl⟩ := returned rt₁ rfl
    refine Keeps.bind ((reconcileService_idle converged.of_status hc).mono (fun _ => id) ?_)
    intro c r hc returned
    cases r with
    | error err => exact ⟨hc, trivial⟩
    | ok rt₂ =>
      obtain ⟨status', rfl⟩ := returned rt₂ rfl
      refine Keeps.bind
        ((reconcileWorkload_idle converged.of_status.of_status hc).mono (fun _ => id) ?_)
      intro c r hc _
      cases r with
      | error err => exact ⟨hc, trivial⟩
      | ok rt₃ => exact ⟨hc, trivial⟩

theorem reconcile_idle (converged : Converged parse rt c₀) (h : Same rt c₀ c) :
    Idle rt c₀ (fun _ => True) (reconcile parse) c := by
  refine keeps_call Same.leaves h ?_
  intro u fate t ans _ hu hapi
  obtain ⟨rfl, ⟨-, rfl⟩ | ⟨rt', hrt', rfl⟩ | ⟨err, rfl⟩⟩ := api_getRuntime hapi
  · exact ⟨hu, trivial⟩
  · obtain ⟨version, annotations, status, asks⟩ := hu.asks
    obtain rfl := Option.some.inj (hrt'.symm.trans asks)
    have converged' : Converged parse
        { rt with resourceVersion := version, annotations, status } c₀ :=
      ⟨converged.configMap, converged.service, converged.workload⟩
    refine Keeps.bind ((reconcileChildren_idle converged' hu).mono (fun _ => id) ?_)
    rintro c ⟨rt', reconcileErr⟩ hc _
    refine keeps_call Same.leaves hc ?_
    intro u fate t ans _ hu hapi
    have ht : Same rt c₀ t := by
      refine ⟨?_, asks_api hu.asks hapi⟩
      obtain ⟨rfl, -⟩ | ⟨-, rfl⟩ := write_cases hapi
      · exact hu.objects
      · exact hu.objects
    cases ans with
    | some err => exact ⟨ht, trivial⟩
    | none =>
      cases reconcileErr with
      | some err => exact ⟨ht, trivial⟩
      | none => exact ⟨ht, trivial⟩
  · exact ⟨hu, trivial⟩

end Stays

/-- A converged cluster stays as it is along every run, whatever becomes of the calls, and however
often the credentials of the runtime are rotated: their hash reaches no child. -/
theorem converged_stays (parse : QuantityParser) (rt : AgentRuntime) (c : Cluster)
    (acts : List (Loop.Act String Fate)) (t : System) (present : c.runtime = some rt)
    (converged : Converged parse rt c) (h : run (rotatingStep parse) ⟨c, none⟩ acts = some t) :
    t.store.objects = c.objects ∧ Converged parse rt t.store := by
  have kept : Loop.Kept api Leaves (Same rt c) (fun _ _ => True) t :=
    Loop.keeps (fun _ _ _ => id) (fun _ _ _ h h' rt c₀ hc => h' rt c₀ (h rt c₀ hc)) Same.leaves
      leaves_rotate (fun _ hc => reconcile_idle converged hc) h
      ⟨rfl, Cluster.asks_of_eq_some present⟩
  exact ⟨kept.1.objects, converged.congr_objects kept.1.objects⟩

/-- The worker with its children in place. -/
def servedWorker : Cluster :=
  withScaledJob worker (withService worker (withConfigMap worker ⟨some worker, fun _ _ => none⟩))

def rotation : List (Loop.Act String Fate) :=
  .other "sha256:2" :: .start :: List.replicate 9 (.call .done)

theorem converged_stays_rotation :
    ∃ t, run (rotatingStep refuseQuantity) ⟨servedWorker, none⟩ rotation = some t ∧
      t.store.objects = servedWorker.objects ∧ Converged refuseQuantity worker t.store := by
  have returns : (run (rotatingStep refuseQuantity) ⟨servedWorker, none⟩ rotation).isSome := by
    decide
  obtain ⟨t, ht⟩ := Option.isSome_iff_exists.mp returns
  refine ⟨t, ht, converged_stays refuseQuantity worker servedWorker rotation t rfl ?_ ht⟩
  exact WithWorkload.converged (.inl ⟨rfl, rfl⟩)

end Daedalus.Operator
