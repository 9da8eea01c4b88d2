import Daedalus.Operator.Reconcile

/-!
# A spec that cannot be turned into a workload

`reconcileWorkload` rejects a scaling mode it does not know before it does anything. Quantities are
looked at later: in the static mode the ScaledJob is deleted first, and only then are the containers
of the Deployment built. A runtime that is switched to the static mode with a quantity that does not
parse loses its ScaledJob and gets nothing instead (`rejected_without_workload`).
-/
namespace Daedalus.Operator

open Foundation Prog

/-- The call is answered as it should be. -/
def Fate.works : Fate → Bool
  | .done => true
  | .noMatch _ => true
  | _ => false

/-- The error that the spec itself leads to, whatever the cluster is like. -/
def specError (parse : QuantityParser) (rt : AgentRuntime) : Option GoError :=
  if scalingMode rt = "ScaledJob" then none
  else if scalingMode rt = "Static" then
    match buildContainers parse rt (a2aPort rt) with
    | .error err => some (.wrap "building containers" err)
    | .ok _ => none
  else some (.new ("unsupported scaling mode: " ++ scalingMode rt))

/-- The Deployment and the ScaledJob of the runtime are the same. -/
structure SameWorkload (rt : AgentRuntime) (c c' : Cluster) : Prop where
  deployment : c'.objects .deployment (workloadKey rt) = c.objects .deployment (workloadKey rt)
  scaledJob : c'.objects .scaledJob (workloadKey rt) = c.objects .scaledJob (workloadKey rt)

section Calls

variable {c t : Cluster} {fate : Fate} {k : Kind} {key : Key}

theorem write_works {σ : Type} {s u after : σ} {possible : Bool} {refusal : GoError}
    {ans : Option GoError} (works : fate.works) (can : possible)
    (h : write s possible refusal after fate = some (u, ans)) : u = after ∧ ans = none := by
  cases fate with
  | done =>
    simp only [write, can, if_true, Option.some.injEq, Prod.mk.injEq] at h
    exact ⟨h.1.symm, h.2.symm⟩
  | noMatch err => cases h
  | lost | unconfirmed => cases works

theorem get_works {ans : Got (Obj k)} (works : fate.works)
    (h : api (.get k key) c fate = some (t, ans)) (err : GoError) : ans ≠ .failed err := by
  cases fate with
  | done =>
    cases h
    cases c.objects k key <;> simp
  | noMatch =>
    simp only [api] at h
    split_ifs at h
    cases h
    simp
  | lost | unconfirmed => cases works

/-- With an API that works, the ScaledJob is removed and nothing else. -/
theorem deleteScaledJobIfExists_works {rt : AgentRuntime} {fates : List Fate}
    {r : Except GoError Unit} (works : ∀ fate ∈ fates, fate.works)
    (h : (deleteScaledJobIfExists rt).exec api c fates = some (t, r)) :
    r = .ok () ∧ t = c.set .scaledJob (workloadKey rt) none := by
  have absent {c : Cluster} (hnone : c.objects .scaledJob (workloadKey rt) = none) :
      c = c.set .scaledJob (workloadKey rt) none := by
    simp [Cluster.set, ← hnone]
  obtain ⟨fate, rest, u, ans, rfl, hget, h⟩ := exec_call.mp h
  rw [List.forall_mem_cons] at works
  obtain ⟨rfl, ⟨o, ho, rfl⟩ | ⟨hnone, rfl | ⟨err, rfl⟩⟩ | ⟨err, rfl⟩⟩ := api_get hget
  · obtain ⟨fate', rest', v, ans', rfl, hdelete, h⟩ := exec_call.mp h
    obtain ⟨rfl, rfl⟩ := write_works (works.2 fate' (by simp)) (by simp [ho]) hdelete
    obtain ⟨-, rfl, rfl⟩ := exec_pure.mp h
    exact ⟨rfl, rfl⟩
  · obtain ⟨-, rfl, rfl⟩ := exec_pure.mp h
    exact ⟨rfl, absent hnone⟩
  · obtain ⟨-, rfl, rfl⟩ := exec_pure.mp h
    exact ⟨rfl, absent hnone⟩
  · exact absurd rfl (get_works works.1 hget err)

end Calls

/-- A call for a rejected spec, with an API that works: it returns the spec's error, and it leaves
the workload alone except for a ScaledJob when the mode is static. -/
theorem rejected_spec_iff {parse : QuantityParser} {rt : AgentRuntime} {err : GoError}
    {c t : Cluster} {fates : List Fate} {r : Except GoError AgentRuntime}
    (rejected : specError parse rt = some err) (works : ∀ fate ∈ fates, fate.works)
    (h : (reconcileWorkload parse rt).exec api c fates = some (t, r)) :
    r = .error err ∧
      (SameWorkload rt c t ↔
        ¬ (scalingMode rt = "Static" ∧ (c.objects .scaledJob (workloadKey rt)).isSome)) := by
  unfold specError at rejected
  unfold reconcileWorkload at h
  split_ifs at rejected h with dynamic static
  · obtain ⟨first, second, u, deleted, rfl, hdelete, h⟩ := exec_bind.mp h
    obtain ⟨rfl, rfl⟩ := deleteScaledJobIfExists_works
      (fun fate hfate => works fate (List.mem_append_left _ hfate)) hdelete
    -- The containers are built only now, when the ScaledJob is gone.
    unfold reconcileDeployment at h
    cases built : buildContainers parse rt (a2aPort rt) with
    | ok containers => simp [built] at rejected
    | error buildErr =>
      simp only [built, Option.some.injEq] at rejected h
      obtain ⟨-, rfl, rfl⟩ := exec_pure.mp h
      refine ⟨by rw [rejected], ?_⟩
      constructor
      · rintro ⟨-, same⟩ ⟨-, running⟩
        rw [Cluster.set_self] at same
        simp [← same] at running
      · intro stopped
        have hnone : c.objects .scaledJob (workloadKey rt) = none := by simpa [static] using stopped
        exact ⟨Cluster.set_of_ne_kind (by decide), by rw [Cluster.set_self, hnone]⟩
  · cases rejected
    obtain ⟨-, rfl, rfl⟩ := exec_pure.mp h
    exact ⟨rfl, by simp [static], fun _ => ⟨rfl, rfl⟩⟩

/-- The worker in the static mode, with a quantity that does not parse. -/
def greedy : AgentRuntime :=
  { worker with
    spec := { worker.spec with
      container := { worker.spec.container with
        resources := some { requests := some { cpu := "lots" } } }
      scaling := some { mode := "Static" } } }

/-- A cluster in which the worker runs as a ScaledJob. -/
def scaledWorker : Cluster where
  runtime := some greedy
  objects
    | .scaledJob, key => if key = workloadKey worker then some (desiredScaledJob worker) else none
    | _, _ => none

/-- The worker in a mode that does not exist. -/
def modeless : AgentRuntime :=
  { worker with spec := { worker.spec with scaling := some { mode := "Serverless" } } }

theorem rejected_spec_iff_modeless :
    ∃ err t r, specError refuseQuantity modeless = some err ∧
      (reconcileWorkload refuseQuantity modeless).exec api scaledWorker [] = some (t, r) ∧
      r = .error err ∧ (SameWorkload modeless scaledWorker t ↔
        ¬ (scalingMode modeless = "Static" ∧
          (scaledWorker.objects .scaledJob (workloadKey modeless)).isSome)) := by
  have rejected : specError refuseQuantity modeless =
      some (.new "unsupported scaling mode: Serverless") := rfl
  have h : (reconcileWorkload refuseQuantity modeless).exec api scaledWorker [] =
      some (scaledWorker, .error (.new "unsupported scaling mode: Serverless")) := rfl
  exact ⟨_, _, _, rejected, h, rejected_spec_iff rejected (by simp) h⟩

/-- The ScaledJob is deleted, the spec is rejected, and no workload is left. -/
theorem rejected_without_workload :
    ∃ err t, specError refuseQuantity greedy = some err ∧
      (reconcileWorkload refuseQuantity greedy).exec api scaledWorker [.done, .done] =
        some (t, .error err) ∧
      (scaledWorker.objects .scaledJob (workloadKey greedy)).isSome ∧
      t.objects .scaledJob (workloadKey greedy) = none ∧
      t.objects .deployment (workloadKey greedy) = none := by
  exact ⟨_, scaledWorker.set .scaledJob (workloadKey greedy) none, rfl, rfl, rfl, rfl, rfl⟩

end Daedalus.Operator
