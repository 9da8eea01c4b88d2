import Daedalus.Operator.Reconcile

/-!
# One workload at a time

A runtime runs as a ScaledJob or as a Deployment, and its mode may change at any time, also while
`Reconcile` is at work. What is known during a call is a predicate on the two objects with the name
of the runtime: the workload of the other mode is gone before the one of this mode is written, and
stays gone. A call that succeeds has written its status to the runtime it has read, so the spec it
worked from is the current one.
-/
namespace Daedalus.Operator

open Foundation Prog

/-- The Deployment and the ScaledJob of the runtime meet `P`. It is still `rt`, and `rt₀` is the
version that the call in progress works from. -/
structure Workloads (rt rt₀ : AgentRuntime) (P : Option Deployment → Option ScaledJob → Prop)
    (c : Cluster) : Prop where
  holds : c.Holds rt
  read : c.Holds rt₀
  objects : P (c.objects .deployment (workloadKey rt)) (c.objects .scaledJob (workloadKey rt))

/-- There is at most one workload, and a Deployment is one that the operator made. -/
def AtMostOne (rt : AgentRuntime) (d : Option Deployment) (j : Option ScaledJob) : Prop :=
  (d = none ∨ j = none) ∧ ∀ v ∈ d, v.controller = some rt.uid

def NoDeployment (d : Option Deployment) (_ : Option ScaledJob) : Prop := d = none

def NoScaledJob (rt : AgentRuntime) (d : Option Deployment) (j : Option ScaledJob) : Prop :=
  j = none ∧ ∀ v ∈ d, v.controller = some rt.uid

/-- The workload that the mode of the runtime asks for is there, built from its spec, and no other.
-/
def Selected (parse : QuantityParser) (rt : AgentRuntime) (c : Cluster) : Prop :=
  (scalingMode rt = "ScaledJob" ∧ c.objects .deployment (workloadKey rt) = none ∧
    c.objects .scaledJob (workloadKey rt) = some (desiredScaledJob rt)) ∨
  (scalingMode rt = "Static" ∧ c.objects .scaledJob (workloadKey rt) = none ∧
    ∃ containers, buildContainers parse rt (a2aPort rt) = .ok containers ∧
      c.objects .deployment (workloadKey rt) = some (desiredDeployment rt containers))

section Workloads

variable {parse : QuantityParser} {rt rt₀ rt' : AgentRuntime} {c c' : Cluster}
  {P Q : Option Deployment → Option ScaledJob → Prop}

theorem SameRuntime.workloadKey_eq (h : SameRuntime rt rt') : workloadKey rt' = workloadKey rt := by
  simp [workloadKey, h.name, h.ns]

theorem Workloads.stable (hrely : Rely c c') (h : Workloads rt rt₀ P c) :
    Workloads rt rt₀ P c' where
  holds := hrely.holds rt h.holds
  read := hrely.holds rt₀ h.read
  objects := by
    rw [hrely.objects]
    exact h.objects

theorem Workloads.imp (h : Workloads rt rt₀ P c) (weaken : ∀ d j, P d j → Q d j) :
    Workloads rt rt₀ Q c :=
  ⟨h.holds, h.read, weaken _ _ h.objects⟩

theorem Workloads.set_other {k : Kind} {key : Key} {o : Option (Obj k)} (h : Workloads rt rt₀ P c)
    (hd : .deployment ≠ k) (hj : .scaledJob ≠ k) : Workloads rt rt₀ P (c.set k key o) := by
  refine ⟨h.holds, h.read, ?_⟩
  rw [Cluster.set_of_ne_kind hd, Cluster.set_of_ne_kind hj]
  exact h.objects

theorem Workloads.set_deployment {d : Option Deployment} (h : Workloads rt rt₀ P c)
    (hd : ∀ j, P (c.objects .deployment (workloadKey rt)) j → P d j) :
    Workloads rt rt₀ P (c.set .deployment (workloadKey rt) d) := by
  have other : Kind.scaledJob ≠ .deployment := nofun
  refine ⟨h.holds, h.read, ?_⟩
  rw [Cluster.set_self, Cluster.set_of_ne_kind other]
  exact hd _ h.objects

theorem Workloads.set_scaledJob {j : Option ScaledJob} (h : Workloads rt rt₀ P c)
    (hj : ∀ d, P d (c.objects .scaledJob (workloadKey rt)) → P d j) :
    Workloads rt rt₀ P (c.set .scaledJob (workloadKey rt) j) := by
  have other : Kind.deployment ≠ .scaledJob := nofun
  refine ⟨h.holds, h.read, ?_⟩
  rw [Cluster.set_self, Cluster.set_of_ne_kind other]
  exact hj _ h.objects

/-! ## The children one by one -/

/-- The runtime after a child's procedure, which sets its status only. -/
def OtherStatus (rt rt' : AgentRuntime) : Prop := ∃ status, rt' = { rt with status }

theorem OtherStatus.same (h : OtherStatus rt rt') : SameRuntime rt rt' := by
  obtain ⟨status, rfl⟩ := h
  exact ⟨rfl, rfl, rfl⟩

theorem OtherStatus.trans {rt'' : AgentRuntime} (h : OtherStatus rt rt')
    (h' : OtherStatus rt' rt'') : OtherStatus rt rt'' := by
  obtain ⟨_, rfl⟩ := h
  obtain ⟨status, rfl⟩ := h'
  exact ⟨status, rfl⟩

/-- The procedure of a child that is not a workload. -/
theorem other_workloads {k : Kind} {title : String} {key : Key} {desired : Obj k}
    {merge : Obj k → Obj k} {absent : Bool} {status : AgentRuntimeStatus} (hd : .deployment ≠ k)
    (hj : .scaledJob ≠ k) (h : Workloads rt rt₀ P c) :
    (withStatus rt' status (createOrUpdate k title key desired merge absent)).Keeps api Rely
      (Workloads rt rt₀ P) (fun _ r => ∀ rt'', r = .ok rt'' → OtherStatus rt' rt'') c := by
  refine (withStatus_keeps (createOrUpdate_keeps (fun _ _ hrely hc => hc.stable hrely)
    (fun _ => True) trivial (fun _ _ _ _ => trivial) ?_ h)).mono (fun _ => id) ?_
  · exact fun _ _ hc _ => hc.set_other hd hj
  · exact fun _ _ _ returned rt'' hr => ⟨status, (returned rt'' hr).1⟩

/-- What a workload's procedure has achieved when it succeeds. -/
structure Placed (parse : QuantityParser) (rt' rt'' : AgentRuntime) (c : Cluster) : Prop where
  runtime : OtherStatus rt' rt''
  selected : Selected parse rt'' c
  status : rt''.status.scaledJobName ≠ "" ↔ scalingMode rt'' = "ScaledJob"

theorem reconcileScaledJob_workloads (same : SameRuntime rt rt') (named : rt'.name ≠ "")
    (mode : scalingMode rt' = "ScaledJob") (h : Workloads rt rt₀ NoDeployment c) :
    (reconcileScaledJob rt').Keeps api Rely (Workloads rt rt₀ NoDeployment)
      (fun c r => ∀ rt'', r = .ok rt'' → Placed parse rt' rt'' c) c := by
  refine (withStatus_keeps (createOrUpdate_keeps (fun _ _ hrely hc => hc.stable hrely)
    (fun o => o = desiredScaledJob rt') rfl (fun _ _ _ _ => rfl) ?_ h)).mono (fun _ => id) ?_
  · intro c o hc _
    rw [same.workloadKey_eq]
    exact hc.set_scaledJob fun _ => id
  · intro c r hc returned rt'' hr
    obtain ⟨rfl, o, ho, rfl⟩ := returned rt'' hr
    have gone : c.objects .deployment (workloadKey rt') = none := by
      rw [same.workloadKey_eq]
      exact hc.objects
    exact ⟨⟨_, rfl⟩, .inl ⟨mode, gone, ho⟩, fun _ => mode, fun _ => named⟩

theorem reconcileDeployment_workloads (same : SameRuntime rt rt')
    (mode : scalingMode rt' = "Static") (h : Workloads rt rt₀ (NoScaledJob rt) c) :
    (reconcileDeployment parse rt').Keeps api Rely (Workloads rt rt₀ (NoScaledJob rt))
      (fun c r => ∀ rt'', r = .ok rt'' → Placed parse rt' rt'' c) c := by
  unfold reconcileDeployment
  cases built : buildContainers parse rt' (a2aPort rt') with
  | error err => exact keeps_error h
  | ok containers =>
    refine (withStatus_keeps (createOrUpdate_keeps (fun _ _ hrely hc => hc.stable hrely)
      (fun o => o = desiredDeployment rt' containers) rfl ?_ ?_ h)).mono (fun _ => id) ?_
    · intro c o hc ho
      rw [same.workloadKey_eq] at ho
      have owner : o.controller = some rt'.uid := by
        rw [same.uid]
        exact hc.objects.2 o ho
      exact congrArg (fun c => { desiredDeployment rt' containers with controller := c }) owner
    · rintro c _ hc rfl
      rw [same.workloadKey_eq]
      refine hc.set_deployment fun j hj => ⟨hj.1, ?_⟩
      rintro _ ⟨⟩
      exact congrArg some same.uid
    · intro c r hc returned rt'' hr
      obtain ⟨rfl, o, ho, rfl⟩ := returned rt'' hr
      have gone : c.objects .scaledJob (workloadKey rt') = none := by
        rw [same.workloadKey_eq]
        exact hc.objects.1
      refine ⟨⟨_, rfl⟩, .inr ⟨mode, gone, containers, built, ho⟩, fun named => (named rfl).elim, ?_⟩
      intro job
      exact absurd (mode.symm.trans job) (by decide)

theorem noDeployment_atMostOne {d : Option Deployment} {j : Option ScaledJob}
    (h : NoDeployment d j) : AtMostOne rt d j := by
  cases h
  exact ⟨.inl rfl, by simp⟩

theorem noScaledJob_atMostOne {d : Option Deployment} {j : Option ScaledJob}
    (h : NoScaledJob rt d j) : AtMostOne rt d j := ⟨.inr h.1, h.2⟩

theorem deleteDeployment_workloads (same : SameRuntime rt rt')
    (h : Workloads rt rt₀ (AtMostOne rt) c) :
    (deleteDeploymentIfExists rt').Keeps api Rely (Workloads rt rt₀ (AtMostOne rt))
      (fun c r => r = .ok () → Workloads rt rt₀ NoDeployment c) c := by
  refine (deleteIfExists_keeps (fun _ _ hrely hc => hc.stable hrely) ?_ h).mono (fun _ => id) ?_
  · intro c hc
    rw [same.workloadKey_eq]
    exact hc.set_deployment fun j _ => ⟨.inl rfl, by simp⟩
  · intro c r hc gone hr
    refine ⟨hc.holds, hc.read, ?_⟩
    rw [← same.workloadKey_eq]
    exact gone hr

theorem deleteScaledJob_workloads (same : SameRuntime rt rt')
    (h : Workloads rt rt₀ (AtMostOne rt) c) :
    (deleteScaledJobIfExists rt').Keeps api Rely (Workloads rt rt₀ (AtMostOne rt))
      (fun c r => r = .ok () → Workloads rt rt₀ (NoScaledJob rt) c) c := by
  refine (deleteIfExists_keeps (fun _ _ hrely hc => hc.stable hrely) ?_ h).mono (fun _ => id) ?_
  · intro c hc
    rw [same.workloadKey_eq]
    exact hc.set_scaledJob fun d hd => ⟨.inr rfl, hd.2⟩
  · intro c r hc gone hr
    refine ⟨hc.holds, hc.read, ?_, hc.objects.2⟩
    rw [← same.workloadKey_eq]
    exact gone hr

/-- The workload of the other mode is deleted first; where that fails, nothing is written. -/
theorem reconcileWorkload_workloads (same : SameRuntime rt rt') (named : rt'.name ≠ "")
    (h : Workloads rt rt₀ (AtMostOne rt) c) :
    (reconcileWorkload parse rt').Keeps api Rely (Workloads rt rt₀ (AtMostOne rt))
      (fun c r => ∀ rt'', r = .ok rt'' → Placed parse rt' rt'' c) c := by
  unfold reconcileWorkload
  split_ifs with job static
  · refine Keeps.bind ((deleteDeployment_workloads same h).mono (fun _ => id) ?_)
    intro c r hc gone
    cases r with
    | error err => exact keeps_error hc
    | ok _ =>
      exact (reconcileScaledJob_workloads same named job (gone rfl)).mono
        (fun _ hc => hc.imp fun _ _ => noDeployment_atMostOne) fun _ _ _ => id
  · refine Keeps.bind ((deleteScaledJob_workloads same h).mono (fun _ => id) ?_)
    intro c r hc gone
    cases r with
    | error err => exact keeps_error hc
    | ok _ =>
      exact (reconcileDeployment_workloads same static (gone rfl)).mono
        (fun _ hc => hc.imp fun _ _ => noScaledJob_atMostOne) fun _ _ _ => id
  · exact keeps_error h

/-- From the runtime `rt'` that was read, the children's procedures make one with another status. -/
theorem reconcileChildren_workloads (same : SameRuntime rt rt') (named : rt'.name ≠ "")
    (h : Workloads rt rt' (AtMostOne rt) c) :
    (reconcileChildren parse rt').Keeps api Rely (Workloads rt rt' (AtMostOne rt))
      (fun c x => x.2 = none → Placed parse rt' x.1 c) c := by
  refine Keeps.bind ((other_workloads (k := .configMap) nofun nofun h).mono (fun _ => id) ?_)
  intro c r hc returned
  cases r with
  | error err => exact ⟨hc, nofun⟩
  | ok rt₁ =>
    have other₁ := returned rt₁ rfl
    refine Keeps.bind ((other_workloads (k := .service) nofun nofun hc).mono (fun _ => id) ?_)
    intro c r hc returned
    cases r with
    | error err => exact ⟨hc, nofun⟩
    | ok rt₂ =>
      have other₂ := other₁.trans (returned rt₂ rfl)
      have named₂ : rt₂.name ≠ "" := by
        rw [other₂.same.name]
        exact named
      have same₂ := same.trans other₂.same
      refine Keeps.bind ((reconcileWorkload_workloads same₂ named₂ hc).mono (fun _ => id) ?_)
      intro c r hc placed
      cases r with
      | error err => exact ⟨hc, nofun⟩
      | ok rt₃ =>
        obtain ⟨other₃, selected, status⟩ := placed rt₃ rfl
        exact ⟨hc, fun _ => ⟨other₂.trans other₃, selected, status⟩⟩

theorem Placed.stable {rt'' : AgentRuntime} (hrely : Rely c c') (h : Placed parse rt' rt'' c) :
    Placed parse rt' rt'' c' := by
  refine ⟨h.runtime, ?_, h.status⟩
  unfold Selected
  rw [hrely.objects]
  exact h.selected

/-- The runtime in the cluster has the workload it asks for, and its status says so. -/
def Settled (parse : QuantityParser) (c : Cluster) : Prop :=
  ∃ rt, c.runtime = some rt ∧ Selected parse rt c ∧
    (rt.status.scaledJobName ≠ "" ↔ scalingMode rt = "ScaledJob")

/-- A status that is accepted was written to the version of the runtime that was read. -/
theorem Placed.settled {rt'' : AgentRuntime} (placed : Placed parse rt' rt'' c)
    (read : c.Holds rt') (same : c.runtime.any (·.resourceVersion == rt''.resourceVersion)) :
    Settled parse (c.changeRuntime ({ · with status := rt''.status })) := by
  obtain ⟨⟨status, rfl⟩, selected, hstatus⟩ := placed
  obtain ⟨current, hcurrent, edited⟩ := read
  rw [Option.mem_def.mp hcurrent] at same
  obtain rfl := edited.unchanged (by simpa using same)
  exact ⟨_, Option.map_eq_some_iff.mpr ⟨_, hcurrent, rfl⟩, selected, hstatus⟩

theorem reconcile_workloads (named : rt.name ≠ "") (h : Workloads rt rt (AtMostOne rt) c) :
    (reconcile parse).Keeps api Rely (Workloads rt rt (AtMostOne rt))
      (fun c r => r = .ok () → Settled parse c) c := by
  refine reconcile_keeps (fun _ _ hrely hc => hc.stable hrely)
    (fun rt'' c => ∃ rt', c.Holds rt' ∧ Placed parse rt' rt'' c) ?_ ?_ ?_ ?_ h
  · rintro c c' rt'' hrely ⟨rt', read, placed⟩
    exact ⟨rt', hrely.holds rt' read, placed.stable hrely⟩
  · intro c hc hnone
    obtain ⟨rt', hrt', -⟩ := hc.holds
    cases hnone.symm.trans hrt'
  · intro c rt' hc hrt'
    obtain ⟨rt'', hrt'', edited⟩ := hc.holds
    obtain rfl : rt'' = rt' := Option.some.inj (hrt''.symm.trans hrt')
    have named' : rt''.name ≠ "" := by
      rw [edited.name]
      exact named
    have start : Workloads rt rt'' (AtMostOne rt) c :=
      ⟨hc.holds, ⟨rt'', hrt'', Edited.refl rt''⟩, hc.objects⟩
    refine (reconcileChildren_workloads edited.toSameRuntime named' start).mono ?_ ?_
    · exact fun c hc => ⟨hc.holds, hc.holds, hc.objects⟩
    · exact fun c x hc placed finished => ⟨rt'', hc.read, placed finished⟩
  · rintro c rt'' - ⟨rt', read, placed⟩ same
    exact placed.settled read same

end Workloads

/-- The runtime of the example is switched to a fixed number of replicas. -/
def staticSpec : AgentRuntimeSpec := { worker.spec with scaling := some { mode := "Static" } }

end Daedalus.Operator
