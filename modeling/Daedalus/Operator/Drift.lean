import Daedalus.Foundation.Controller
import Daedalus.Operator.Convergence
import Daedalus.Operator.Ownership

/-!
# Drift

Others change not only the runtime but also its children. The controller watches the runtime, and of
the child kinds the objects that the runtime controls (`SetupWithManager`), the ScaledJobs only if
their kind was served when the operator was started. A change is noticed if the object was or is
controlled by the runtime. As long as others do nothing else to the children, a runtime that is not
due has the children that its spec asks for, in what `Reconcile` writes of them: it does not change
back the type of a Service.
-/
namespace Daedalus.Operator

open Foundation Prog

/-! ## The controller -/

/-- What others do. An object is created, changed or deleted. -/
inductive Drift where
  | edit (spec : AgentRuntimeSpec)
  | annotate (hash : String)
  | object (k : Kind) (key : Key) (old new : Option (Obj k))

def Cluster.drift (c : Cluster) : Drift → Cluster
  | .edit spec => c.edit spec
  | .annotate hash => c.rotate hash
  | .object k key _ new => c.set k key new

/-- The object is there, and controlled by the runtime. -/
def Cluster.controls (c : Cluster) {k : Kind} (o : Option (Obj k)) : Bool :=
  c.runtime.any fun rt => o.any fun o => o.controller = some rt.uid

/-- The kinds that are watched. -/
def watched (keda : Bool) : Kind → Bool
  | .scaledJob => keda
  | _ => true

/-- The event is one for the runtime. -/
def Cluster.concerns (c : Cluster) (keda : Bool) : Drift → Bool
  | .edit _ | .annotate _ => true
  | .object k _ old new => watched keda k && (c.controls old || c.controls new)

def runtimeController (parse : QuantityParser) (keda : Bool) :
    Controller Unit Drift Op Ans Cluster Fate (Except GoError Unit) where
  api _ := api
  program _ := reconcile parse
  requeue r := r.toOption.isNone
  change := Cluster.drift
  mapped c e := if c.concerns keda e then {()} else ∅

/-- Whoever touches a child of the runtime, touches an object that the runtime controls, or puts one
there; and the kind is watched. -/
def Controlled (keda : Bool) (c : Cluster) : Drift → Prop
  | .edit _ | .annotate _ => True
  | .object k key old new => old = c.objects k key ∧
    ∀ rt, c.runtime = some rt → key = childKey rt k →
      watched keda k ∧ (c.controls old ∨ c.controls new)

/-- The children are as the spec asks. -/
def Served (parse : QuantityParser) (c : Cluster) (_ : Unit) : Prop :=
  ∀ rt, c.runtime = some rt → Converged parse rt c

/-- Others leave the runtime and its children alone. -/
structure Spares (c c' : Cluster) : Prop where
  runtime : c'.runtime = c.runtime
  children : ∀ rt, c.runtime = some rt → ∀ k,
    c'.objects k (childKey rt k) = c.objects k (childKey rt k)

theorem Spares.refl (c : Cluster) : Spares c c := ⟨rfl, fun _ _ _ => rfl⟩

theorem Spares.trans (c c' c'' : Cluster) (h : Spares c c') (h' : Spares c' c'') :
    Spares c c'' := by
  refine ⟨h'.runtime.trans h.runtime, ?_⟩
  intro rt hrt k
  rw [h'.children rt (h.runtime.trans hrt) k, h.children rt hrt k]

/-! ## The children one by one -/

abbrev Children := (k : Kind) → Option (Obj k)

def childrenOf (rt : AgentRuntime) (c : Cluster) : Children := fun k => c.objects k (childKey rt k)

/-- The runtime is as it was read, and its children meet `P`. -/
structure Reached (rt : AgentRuntime) (P : Children → Prop) (c : Cluster) : Prop where
  read : c.runtime = some rt
  children : P (childrenOf rt c)

/-- Whether `P` holds does not depend on the child of this kind. -/
def Ignores (k : Kind) (P : Children → Prop) : Prop := ∀ f o, P f → P (Function.update f k o)

section Stages

variable {parse : QuantityParser} {rt rt' : AgentRuntime} {c c' : Cluster} {k : Kind}
  {P : Children → Prop}

theorem childrenOf_set {o : Option (Obj k)} :
    childrenOf rt (c.set k (childKey rt k) o) = Function.update (childrenOf rt c) k o := by
  funext k'
  by_cases hk : k' = k
  · subst hk
    simp [childrenOf]
  · simp [childrenOf, hk, Cluster.set_of_ne_kind hk]

theorem Reached.stable (c c' : Cluster) (spares : Spares c c') (h : Reached rt P c) :
    Reached rt P c' := by
  refine ⟨spares.runtime.trans h.read, ?_⟩
  have same : childrenOf rt c' = childrenOf rt c := funext (spares.children rt h.read)
  rw [same]
  exact h.children

theorem Reached.set {o : Option (Obj k)} (h : Reached rt P c) (ignores : Ignores k P) :
    Reached rt P (c.set k (childKey rt k) o) := by
  refine ⟨h.read, ?_⟩
  rw [childrenOf_set]
  exact ignores _ o h.children

theorem createOrUpdate_reached {title : String} {desired : Obj k} {merge : Obj k → Obj k}
    {absent : Bool} (ignores : Ignores k P) (Good : Obj k → Prop) (fresh : Good desired)
    (merged : ∀ o, Good (merge o)) (h : Reached rt P c) :
    (createOrUpdate k title (childKey rt k) desired merge absent).Keeps api Spares (Reached rt P)
      (fun c r => r = .ok () → Reached rt (fun f => P f ∧ ∃ o, f k = some o ∧ Good o) c) c := by
  refine (createOrUpdate_spec Reached.stable Good (fun _ _ _ => fresh) (fun _ o _ _ => merged o)
    (fun _ _ hc _ => hc.set ignores) h).mono (fun _ => id) ?_
  intro c r hc done ok
  exact ⟨hc.read, hc.children, done ok⟩

theorem deleteIfExists_reached {absent : Bool} (ignores : Ignores k P) (h : Reached rt P c) :
    (deleteIfExists k (childKey rt k) absent).Keeps api Spares (Reached rt P)
      (fun c r => r = .ok () → Reached rt (fun f => P f ∧ f k = none) c) c := by
  refine (deleteIfExists_spec Reached.stable (fun _ _ _ _ hc => hc.set ignores) h).mono
    (fun _ => id) ?_
  intro c r hc done ok
  exact ⟨hc.read, hc.children, done ok⟩

/-- What a procedure has achieved when it succeeds: `P` for the children, and a new status. -/
def Achieves (rt rt' : AgentRuntime) (P : Children → Prop) (c : Cluster)
    (r : Except GoError AgentRuntime) : Prop :=
  ∀ rt'', r = .ok rt'' → OtherStatus rt' rt'' ∧ Reached rt P c

/-- The procedure of a child; the others are not touched. -/
theorem child_achieves (rt : AgentRuntime) {status : AgentRuntimeStatus} {title : String}
    {desired : Obj k}
    {merge : Obj k → Obj k} {absent : Bool} (ignores : Ignores k P) (Good : Obj k → Prop)
    (fresh : Good desired) (merged : ∀ o, Good (merge o)) (h : Reached rt P c) :
    (withStatus rt' status (createOrUpdate k title (childKey rt k) desired merge absent)).Keeps api
      Spares (Reached rt P) (Achieves rt rt' fun f => P f ∧ ∃ o, f k = some o ∧ Good o) c := by
  refine (withStatus_keeps (createOrUpdate_reached ignores Good fresh merged h)).mono
    (fun _ => id) ?_
  intro c r _ returned rt'' hr
  obtain ⟨rfl, done⟩ := returned rt'' hr
  exact ⟨⟨status, rfl⟩, done⟩

/-- The object is as the spec asks. -/
def ConfigMap.Fits (rt : AgentRuntime) (cm : ConfigMap) : Prop :=
  cm.data = (desiredConfigMap rt).data ∧ cm.labels = (desiredConfigMap rt).labels

def Service.Fits (rt : AgentRuntime) (svc : Service) : Prop :=
  svc.ports = (desiredService rt).ports ∧ svc.selector = (desiredService rt).selector ∧
    svc.labels = (desiredService rt).labels

def Deployment.Fits (rt : AgentRuntime) (containers : List Container) (d : Deployment) : Prop :=
  d.spec = (desiredDeployment rt containers).spec ∧
    d.labels = (desiredDeployment rt containers).labels

def HasConfigMap (rt : AgentRuntime) (f : Children) : Prop :=
  ∃ cm, f .configMap = some cm ∧ ConfigMap.Fits rt cm

/-- The ConfigMap and the Service are in place. -/
def HasBoth (rt : AgentRuntime) (f : Children) : Prop :=
  HasConfigMap rt f ∧ ∃ svc, f .service = some svc ∧ Service.Fits rt svc

def HasWorkload (parse : QuantityParser) (rt : AgentRuntime) (f : Children) : Prop :=
  (scalingMode rt = "ScaledJob" ∧ f .deployment = none ∧
    f .scaledJob = some (desiredScaledJob rt)) ∨
  (scalingMode rt = "Static" ∧ f .scaledJob = none ∧ ∃ containers,
    buildContainers parse rt (a2aPort rt) = .ok containers ∧
      ∃ d, f .deployment = some d ∧ Deployment.Fits rt containers d)

theorem converged_of_reached
    (h : Reached rt (fun f => HasBoth rt f ∧ HasWorkload parse rt f) c) : Converged parse rt c := by
  obtain ⟨-, ⟨configMap, service⟩, workload⟩ := h
  refine ⟨configMap, service, ?_⟩
  obtain scaledJob | ⟨mode, gone, containers, built, d, hd, spec, labels⟩ := workload
  · exact .inl scaledJob
  · exact .inr ⟨mode, gone, containers, d, built, hd, spec, labels⟩

theorem HasConfigMap.ignores (h : k ≠ .configMap) : Ignores k (HasConfigMap rt) := by
  rintro f o ⟨cm, hcm, fits⟩
  exact ⟨cm, (Function.update_of_ne h.symm _ _).trans hcm, fits⟩

theorem HasBoth.ignores (h : k ≠ .configMap) (h' : k ≠ .service) : Ignores k (HasBoth rt) := by
  rintro f o ⟨configMap, svc, hsvc, fits⟩
  refine ⟨HasConfigMap.ignores h f o configMap, svc, ?_, fits⟩
  exact (Function.update_of_ne h'.symm _ _).trans hsvc

theorem reconcileConfigMap_achieves (read : c.runtime = some rt) :
    (reconcileConfigMap rt).Keeps api Spares (fun _ => True)
      (Achieves rt rt (HasConfigMap rt)) c := by
  have h : Reached rt (fun _ => True) c := ⟨read, trivial⟩
  have ignores : Ignores .configMap fun _ => True := fun _ _ _ => trivial
  refine Keeps.mono
    (child_achieves rt ignores (ConfigMap.Fits rt) ⟨rfl, rfl⟩ (fun _ => ⟨rfl, rfl⟩) h)
    (fun _ _ => trivial) ?_
  intro c r _ achieves rt' hr
  obtain ⟨other, reached⟩ := achieves rt' hr
  exact ⟨other, reached.read, reached.children.2⟩

theorem reconcileService_achieves (other : OtherStatus rt rt')
    (h : Reached rt (HasConfigMap rt) c) :
    (reconcileService rt').Keeps api Spares (fun _ => True) (Achieves rt rt' (HasBoth rt)) c := by
  obtain ⟨status, rfl⟩ := other
  have ignores : Ignores .service (HasConfigMap rt) := HasConfigMap.ignores (by decide)
  exact Keeps.mono (child_achieves rt ignores (Service.Fits rt) ⟨rfl, rfl, rfl⟩
    (fun _ => ⟨rfl, rfl, rfl⟩) h) (fun _ _ => trivial) fun _ _ _ => id

theorem reconcileScaledJob_achieves (other : OtherStatus rt rt')
    (mode : scalingMode rt = "ScaledJob")
    (h : Reached rt (fun f => HasBoth rt f ∧ f .deployment = none) c) :
    (reconcileScaledJob rt').Keeps api Spares (fun _ => True)
      (Achieves rt rt' fun f => HasBoth rt f ∧ HasWorkload parse rt f) c := by
  obtain ⟨status, rfl⟩ := other
  have ignores : Ignores .scaledJob fun f => HasBoth rt f ∧ f .deployment = none := by
    rintro f o ⟨both, gone⟩
    exact ⟨HasBoth.ignores (by decide) (by decide) f o both, gone⟩
  refine Keeps.mono (child_achieves rt ignores (· = desiredScaledJob rt) rfl (fun _ => rfl) h)
    (fun _ _ => trivial) ?_
  intro c r _ achieves rt'' hr
  obtain ⟨other, read, ⟨both, gone⟩, _, placed, rfl⟩ := achieves rt'' hr
  exact ⟨other, read, both, .inl ⟨mode, gone, placed⟩⟩

theorem reconcileDeployment_achieves (other : OtherStatus rt rt') (mode : scalingMode rt = "Static")
    (h : Reached rt (fun f => HasBoth rt f ∧ f .scaledJob = none) c) :
    (reconcileDeployment parse rt').Keeps api Spares (fun _ => True)
      (Achieves rt rt' fun f => HasBoth rt f ∧ HasWorkload parse rt f) c := by
  obtain ⟨status, rfl⟩ := other
  have ignores : Ignores .deployment fun f => HasBoth rt f ∧ f .scaledJob = none := by
    rintro f o ⟨both, gone⟩
    exact ⟨HasBoth.ignores (by decide) (by decide) f o both, gone⟩
  unfold reconcileDeployment
  cases built : buildContainers parse { rt with status } (a2aPort { rt with status }) with
  | error err => exact keeps_error trivial
  | ok containers =>
    refine Keeps.mono (child_achieves rt ignores (Deployment.Fits rt containers) ⟨rfl, rfl⟩
      (fun _ => ⟨rfl, rfl⟩) h) (fun _ _ => trivial) ?_
    intro c r _ achieves rt'' hr
    obtain ⟨other, read, ⟨both, gone⟩, placed⟩ := achieves rt'' hr
    exact ⟨other, read, both, .inr ⟨mode, gone, containers, built, placed⟩⟩

theorem reconcileWorkload_achieves (other : OtherStatus rt rt') (h : Reached rt (HasBoth rt) c) :
    (reconcileWorkload parse rt').Keeps api Spares (fun _ => True)
      (Achieves rt rt' fun f => HasBoth rt f ∧ HasWorkload parse rt f) c := by
  obtain ⟨status, rfl⟩ := other
  unfold reconcileWorkload
  split_ifs with mode mode
  · have ignores : Ignores .deployment (HasBoth rt) := HasBoth.ignores (by decide) (by decide)
    refine Keeps.bind ((deleteIfExists_reached ignores h).mono (fun _ _ => trivial) ?_)
    intro c r _ gone
    cases r with
    | error err => exact keeps_error trivial
    | ok _ => exact reconcileScaledJob_achieves ⟨status, rfl⟩ mode (gone rfl)
  · have ignores : Ignores .scaledJob (HasBoth rt) := HasBoth.ignores (by decide) (by decide)
    refine Keeps.bind ((deleteIfExists_reached ignores h).mono (fun _ _ => trivial) ?_)
    intro c r _ gone
    cases r with
    | error err => exact keeps_error trivial
    | ok _ => exact reconcileDeployment_achieves ⟨status, rfl⟩ mode (gone rfl)
  · exact keeps_error trivial

theorem reconcileChildren_achieves (read : c.runtime = some rt) :
    (reconcileChildren parse rt).Keeps api Spares (fun _ => True)
      (fun c x => x.2 = none → OtherStatus rt x.1 ∧ c.runtime = some rt ∧ Converged parse rt c)
      c := by
  refine Keeps.bind ((reconcileConfigMap_achieves read).mono (fun _ => id) ?_)
  intro c r _ achieved
  cases r with
  | error err => exact ⟨trivial, fun done => by cases done⟩
  | ok rt₁ =>
    obtain ⟨other, reached⟩ := achieved rt₁ rfl
    refine Keeps.bind ((reconcileService_achieves other reached).mono (fun _ => id) ?_)
    intro c r _ achieved
    cases r with
    | error err => exact ⟨trivial, fun done => by cases done⟩
    | ok rt₂ =>
      obtain ⟨other', reached⟩ := achieved rt₂ rfl
      have other := other.trans other'
      refine Keeps.bind ((reconcileWorkload_achieves other reached).mono (fun _ => id) ?_)
      intro c r _ achieved
      cases r with
      | error err => exact ⟨trivial, fun done => by cases done⟩
      | ok rt₃ =>
        obtain ⟨other', reached⟩ := achieved rt₃ rfl
        exact ⟨trivial, fun _ =>
          ⟨other.trans other', reached.read, converged_of_reached reached⟩⟩

end Stages

/-! ## The loop -/

section Loop

variable {parse : QuantityParser} {keda : Bool} {c c' : Cluster}

theorem Converged.spared {rt : AgentRuntime} (h : Converged parse rt c) (hrt : c.runtime = some rt)
    (spares : Spares c c') : Converged parse rt c' := by
  have same (k : Kind) := spares.children rt hrt k
  refine ⟨?_, ?_, ?_⟩
  · rw [show c'.objects .configMap (configMapKey rt) = _ from same .configMap]
    exact h.configMap
  · rw [show c'.objects .service (serviceKey rt) = _ from same .service]
    exact h.service
  · rw [show c'.objects .deployment (workloadKey rt) = _ from same .deployment,
      show c'.objects .scaledJob (workloadKey rt) = _ from same .scaledJob]
    exact h.workload

theorem served_of_spares (key : Unit) (c c' : Cluster) (spares : Spares c c')
    (h : Served parse c key) : Served parse c' key := by
  intro rt hrt
  have hrt : c.runtime = some rt := spares.runtime ▸ hrt
  exact (h rt hrt).spared hrt spares

theorem reconcile_serves (key : Unit) (c : Cluster) :
    (reconcile parse).Keeps api Spares (fun _ => True)
      (fun c r => r.toOption.isNone = false → Served parse c key) c := by
  refine keeps_call (fun _ _ _ _ => trivial) trivial ?_
  intro u fate t ans _ _ hapi
  obtain ⟨rfl, ⟨hnone, rfl⟩ | ⟨rt, hrt, rfl⟩ | ⟨err, rfl⟩⟩ := api_getRuntime hapi
  · refine keeps_pure.mpr ⟨trivial, fun _ rt hrt => ?_⟩
    cases hnone.symm.trans hrt
  · refine Keeps.bind ((reconcileChildren_achieves hrt).mono (fun _ => id) ?_)
    rintro c ⟨rt', reconcileErr⟩ _ achieved
    refine keeps_call (fun _ _ _ _ => trivial) trivial ?_
    intro u fate t ans spares _ hapi
    cases ans with
    | some err => exact ⟨trivial, fun done => by cases done⟩
    | none =>
      cases reconcileErr with
      | some err => exact ⟨trivial, fun done => by cases done⟩
      | none =>
        obtain ⟨other, read, converged⟩ := achieved rfl
        have converged : Converged parse rt u := converged.spared read spares
        refine keeps_pure.mpr ⟨trivial, fun _ rt'' hrt'' => ?_⟩
        obtain ⟨-, err, e⟩ | ⟨-, rfl⟩ := write_cases hapi
        · cases e
        · obtain ⟨rt₀, hrt₀, rfl⟩ := Option.map_eq_some_iff.mp hrt''
          obtain rfl := Option.some.inj ((spares.runtime.trans read).symm.trans hrt₀)
          exact ⟨converged.configMap, converged.service, converged.workload⟩
  · exact ⟨trivial, fun done => by cases done⟩

theorem Cluster.controls_congr {k : Kind} {o : Option (Obj k)}
    (h : c'.runtime.map (·.uid) = c.runtime.map (·.uid)) : c'.controls o = c.controls o := by
  have uid (c : Cluster) : c.controls o =
      (c.runtime.map (·.uid)).any fun uid => o.any fun o => o.controller = some uid := by
    unfold Cluster.controls
    cases c.runtime <;> rfl
  rw [uid, uid, h]

theorem Cluster.concerns_congr {e : Drift} (h : c'.runtime.map (·.uid) = c.runtime.map (·.uid)) :
    c'.concerns keda e = c.concerns keda e := by
  cases e with
  | edit spec => rfl
  | annotate hash => rfl
  | object k key old new =>
    simp only [Cluster.concerns, Cluster.controls_congr h]

theorem drift_uid (c : Cluster) (e : Drift) :
    (c.drift e).runtime.map (·.uid) = c.runtime.map (·.uid) := by
  cases e <;> simp [Cluster.drift, Cluster.edit, Cluster.rotate, Cluster.changeRuntime,
    Rotation.annotate, Function.comp_def]

theorem api_uid {op : Op} {fate : Fate} {ans : Ans op} (h : api op c fate = some (c', ans)) :
    c'.runtime.map (·.uid) = c.runtime.map (·.uid) := by
  obtain same | ⟨status, hstatus⟩ := api_runtime h
  · rw [same]
  · rw [hstatus]
    simp [Cluster.changeRuntime, Function.comp_def]

/-- A change that matters to the runtime is an event for it. -/
theorem drift_noticed (c : Cluster) (e : Drift) (controlled : Controlled keda c e) :
    (c.drift e).concerns keda e ∨ Spares c (c.drift e) := by
  cases e with
  | edit spec => exact .inl rfl
  | annotate hash => exact .inl rfl
  | object k key old new =>
    by_cases concerned : (c.drift (.object k key old new)).concerns keda (.object k key old new)
    · exact .inl concerned
    · refine .inr ⟨rfl, ?_⟩
      intro rt hrt k'
      by_cases hk : k' = k
      · subst hk
        refine Cluster.set_of_ne_key ?_
        intro hkey
        refine concerned ?_
        rw [Cluster.concerns_congr (drift_uid c _)]
        obtain ⟨kind, owned⟩ := controlled.2 rt hrt hkey.symm
        simpa [Cluster.concerns, kind] using owned
      · exact Cluster.set_of_ne_kind hk

theorem runtimeController_sound (parse : QuantityParser) (keda : Bool) :
    (runtimeController parse keda).Sound (Controlled keda) (Served parse) fun _ => Spares where
  refl _ := Spares.refl
  trans _ := Spares.trans
  stable := served_of_spares
  noticed c e key controlled := by
    obtain concerned | spares := drift_noticed c e controlled
    · exact .inl (by simp [runtimeController, concerned])
    · exact .inr spares
  remembered c e e' key _ h := by
    refine .inl ?_
    simpa only [runtimeController, Cluster.concerns_congr (drift_uid c e)] using h
  apart key op c fate c' ans h := by
    refine ⟨?_, fun other hother => absurd rfl hother⟩
    funext e
    simp only [runtimeController, Cluster.concerns_congr (api_uid h)]
  brings := reconcile_serves

end Loop

abbrev Shop := Controller.State Unit Drift Op Ans Cluster (Except GoError Unit)

abbrev ShopAct := Controller.Act Unit Drift Fate

def servedShop : Shop where
  store := servedWorker
  queue := {()}
  pending := []
  running := none

/-- `Reconcile` is called, and all its calls succeed. -/
def attended : List ShopAct :=
  .deliver :: .start () :: List.replicate 9 (.call .done) ++ [.finish]

def deleteConfigMap : ShopAct :=
  .change (.object .configMap (configMapKey worker)
    (servedWorker.objects .configMap (configMapKey worker)) none)

end Daedalus.Operator
