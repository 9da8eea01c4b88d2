import Daedalus.Operator.Reconcile

/-!
# What `Reconcile` touches

`Reconcile` looks its children up by their names and never at their owners. It touches the four
objects under these names and no others, so it leaves the objects of others alone as long as none of
them has one of the four names. Where one has, `Reconcile` takes it for its own.
-/
namespace Daedalus.Operator

open Foundation Prog

/-- The name under which the child of a kind is looked up. -/
def childKey (rt : AgentRuntime) : Kind → Key
  | .configMap => configMapKey rt
  | .service => serviceKey rt
  | .deployment => workloadKey rt
  | .scaledJob => workloadKey rt

theorem SameRuntime.childKey_eq {rt rt' : AgentRuntime} (h : SameRuntime rt rt') (k : Kind) :
    childKey rt' k = childKey rt k := by
  cases k <;> simp [childKey, configMapKey, serviceKey, workloadKey, h.name, h.ns]

/-- The children of the runtime are controlled by it; all other objects are those of `c₀`. -/
structure Owned (rt : AgentRuntime) (c₀ c : Cluster) : Prop where
  holds : c.Holds rt
  child : ∀ k o, c.objects k (childKey rt k) = some o → Obj.controller o = some rt.uid
  frame : ∀ k key, key ≠ childKey rt k → c.objects k key = c₀.objects k key

section Owned

variable {rt rt' : AgentRuntime} {c₀ c c' : Cluster} {k : Kind}

theorem Owned.stable (hrely : Rely c c') (h : Owned rt c₀ c) : Owned rt c₀ c' where
  holds := hrely.holds rt h.holds
  child := by
    rw [hrely.objects]
    exact h.child
  frame := by
    rw [hrely.objects]
    exact h.frame

/-- A child may be replaced by one that the runtime controls, or removed. -/
theorem Owned.set {o : Option (Obj k)} (h : Owned rt c₀ c) (same : SameRuntime rt rt')
    (ho : ∀ v ∈ o, Obj.controller v = some rt.uid) : Owned rt c₀ (c.set k (childKey rt' k) o) := by
  rw [same.childKey_eq]
  refine ⟨h.holds, ?_, ?_⟩
  · intro k' v hv
    by_cases hk : k' = k
    · subst hk
      rw [Cluster.set_self] at hv
      exact ho v hv
    · rw [Cluster.set_of_ne_kind hk] at hv
      exact h.child k' v hv
  · intro k' key hkey
    by_cases hk : k' = k
    · subst hk
      rw [Cluster.set_of_ne_key hkey]
      exact h.frame k' key hkey
    · rw [Cluster.set_of_ne_kind hk]
      exact h.frame k' key hkey

variable (same : SameRuntime rt rt')

include same

theorem createOrUpdate_owned {title : String} {desired : Obj k} {merge : Obj k → Obj k}
    {absent : Bool} (fresh : Obj.controller desired = some rt'.uid)
    (merged : ∀ o, Obj.controller o = some rt'.uid → Obj.controller (merge o) = some rt'.uid)
    (h : Owned rt c₀ c) :
    (createOrUpdate k title (childKey rt' k) desired merge absent).Keeps api Rely (Owned rt c₀)
      (fun _ r => r = .ok () → True) c := by
  rw [same.uid] at fresh merged
  refine (createOrUpdate_keeps (fun _ _ hrely hc => hc.stable hrely)
    (fun o => Obj.controller o = some rt.uid) fresh ?_ ?_ h).mono
    (fun _ => id) fun _ _ _ _ _ => trivial
  · intro c o hc ho
    rw [same.childKey_eq] at ho
    exact merged o (hc.child k o ho)
  · intro c o hc ho
    refine hc.set same ?_
    rintro _ ⟨⟩
    exact ho

theorem deleteIfExists_owned {absent : Bool} (h : Owned rt c₀ c) :
    (deleteIfExists k (childKey rt' k) absent).Keeps api Rely (Owned rt c₀) (fun _ _ => True) c :=
  (deleteIfExists_keeps (fun _ _ hrely hc => hc.stable hrely)
    (fun _ hc => hc.set same (by simp)) h).mono (fun _ => id) fun _ _ _ _ => trivial

/-- What a child's procedure returns is the same runtime. -/
def Returns (rt : AgentRuntime) (r : Except GoError AgentRuntime) : Prop :=
  ∀ rt', r = .ok rt' → SameRuntime rt rt'

theorem withStatus_owned {status : AgentRuntimeStatus} {p : Proc (Except GoError Unit)}
    (h : p.Keeps api Rely (Owned rt c₀) (fun _ r => r = .ok () → True) c) :
    (withStatus rt' status p).Keeps api Rely (Owned rt c₀) (fun _ r => Returns rt r) c := by
  refine (withStatus_keeps h).mono (fun _ => id) ?_
  intro _ r _ returned rt'' hr
  obtain ⟨rfl, -⟩ := returned rt'' hr
  exact ⟨same.name, same.ns, same.uid⟩

theorem reconcileConfigMap_owned (h : Owned rt c₀ c) :
    (reconcileConfigMap rt').Keeps api Rely (Owned rt c₀) (fun _ r => Returns rt r) c :=
  withStatus_owned same <| createOrUpdate_owned (k := .configMap) same rfl (fun _ ho => ho) h

theorem reconcileService_owned (h : Owned rt c₀ c) :
    (reconcileService rt').Keeps api Rely (Owned rt c₀) (fun _ r => Returns rt r) c :=
  withStatus_owned same <| createOrUpdate_owned (k := .service) same rfl (fun _ ho => ho) h

theorem reconcileScaledJob_owned (h : Owned rt c₀ c) :
    (reconcileScaledJob rt').Keeps api Rely (Owned rt c₀) (fun _ r => Returns rt r) c :=
  withStatus_owned same <| createOrUpdate_owned (k := .scaledJob) same rfl (fun _ _ => rfl) h

theorem reconcileDeployment_owned {parse : QuantityParser} (h : Owned rt c₀ c) :
    (reconcileDeployment parse rt').Keeps api Rely (Owned rt c₀) (fun _ r => Returns rt r) c := by
  unfold reconcileDeployment
  cases buildContainers parse rt' (a2aPort rt') with
  | error err => exact keeps_error h
  | ok containers =>
    exact withStatus_owned same <|
      createOrUpdate_owned (k := .deployment) same rfl (fun _ ho => ho) h

theorem reconcileWorkload_owned {parse : QuantityParser} (h : Owned rt c₀ c) :
    (reconcileWorkload parse rt').Keeps api Rely (Owned rt c₀) (fun _ r => Returns rt r) c := by
  unfold reconcileWorkload
  split_ifs
  · refine Keeps.bind ((deleteIfExists_owned (k := .deployment) same h).mono (fun _ => id) ?_)
    intro c r hc _
    cases r with
    | error err => exact keeps_error hc
    | ok _ => exact reconcileScaledJob_owned same hc
  · refine Keeps.bind ((deleteIfExists_owned (k := .scaledJob) same h).mono (fun _ => id) ?_)
    intro c r hc _
    cases r with
    | error err => exact keeps_error hc
    | ok _ => exact reconcileDeployment_owned same hc
  · exact keeps_error h

theorem reconcileChildren_owned {parse : QuantityParser} (h : Owned rt c₀ c) :
    (reconcileChildren parse rt').Keeps api Rely (Owned rt c₀) (fun _ _ => True) c := by
  refine Keeps.bind ((reconcileConfigMap_owned same h).mono (fun _ => id) ?_)
  intro c r hc returned
  cases r with
  | error err => exact ⟨hc, trivial⟩
  | ok rt₁ =>
    refine Keeps.bind ((reconcileService_owned (returned rt₁ rfl) hc).mono (fun _ => id) ?_)
    intro c r hc returned
    cases r with
    | error err => exact ⟨hc, trivial⟩
    | ok rt₂ =>
      refine Keeps.bind ((reconcileWorkload_owned (returned rt₂ rfl) hc).mono (fun _ => id) ?_)
      intro c r hc _
      cases r with
      | error err => exact ⟨hc, trivial⟩
      | ok rt₃ => exact ⟨hc, trivial⟩

omit same in
theorem reconcile_owned {parse : QuantityParser} (h : Owned rt c₀ c) :
    (reconcile parse).Keeps api Rely (Owned rt c₀) (fun _ r => r = .ok () → True) c := by
  refine reconcile_keeps (fun _ _ hrely hc => hc.stable hrely) (fun _ _ => True)
    (fun _ _ _ _ => id) (fun _ _ _ => trivial) ?_ (fun _ _ _ _ _ => trivial) h
  intro c rt' hc hrt'
  obtain ⟨rt'', hrt'', edited⟩ := hc.holds
  obtain rfl : rt'' = rt' := Option.some.inj (hrt''.symm.trans hrt')
  exact (reconcileChildren_owned edited.toSameRuntime hc).mono (fun _ => id)
    fun _ _ _ _ _ => trivial

end Owned

/-- If every object with the name of a child is controlled by the runtime, then in every run, with
edits of the spec and failures of the API at any point, the objects that the runtime does not
control are exactly those of the start. -/
theorem reconcile_leaves_others {parse : QuantityParser} {c₀ : Cluster} {rt : AgentRuntime}
    {acts : List SystemAct} {s : System} (hrt : c₀.runtime = some rt)
    (own : ∀ k o, c₀.objects k (childKey rt k) = some o → Obj.controller o = some rt.uid)
    (hrun : run (systemStep parse) ⟨c₀, none⟩ acts = some s) (k : Kind) (key : Key) (o : Obj k)
    (ho : Obj.controller o ≠ some rt.uid) :
    s.store.objects k key = some o ↔ c₀.objects k key = some o := by
  have start : Owned rt c₀ c₀ := ⟨⟨rt, hrt, Edited.refl rt⟩, own, fun _ _ _ => rfl⟩
  obtain ⟨owned, -⟩ := Loop.keeps Rely.refl Rely.trans (fun _ _ hrely hc => Owned.stable hrely hc)
    rely_edit (fun _ hc => reconcile_owned hc) hrun start
  by_cases hkey : key = childKey rt k
  · subst hkey
    exact ⟨fun h => absurd (owned.child k o h) ho, fun h => absurd (own k o h) ho⟩
  · rw [owned.frame k key hkey]

/-- A Deployment that somebody made by hand. -/
def bystander : Deployment where
  labels := []
  controller := none
  spec :=
    { replicas := 3, selector := [], podLabels := [], containers := [], imagePullSecrets := [] }

/-- The runtime, and a Deployment of somebody else in its namespace. -/
def shared (name : String) : Cluster :=
  Cluster.set ⟨some worker, fun _ _ => none⟩ .deployment ⟨"agents", name⟩ (some bystander)

theorem reconcile_leaves_others_beside : ∃ s,
    run (systemStep refuseQuantity) ⟨shared "database", none⟩ (undisturbed 9) = some s ∧
      s.result.isSome ∧ s.store.objects .deployment ⟨"agents", "database"⟩ = some bystander := by
  have returned : (run (systemStep refuseQuantity) ⟨shared "database", none⟩ (undisturbed 9)).map
      (·.result.isSome) = some true := by decide
  obtain ⟨s, hs, hres⟩ := Option.map_eq_some_iff.mp returned
  have own : ∀ k o, (shared "database").objects k (childKey worker k) = some o →
      Obj.controller o = some worker.uid := by
    intro k o ho
    cases k with
    | configMap => cases ho
    | service => cases ho
    | deployment => cases ho
    | scaledJob => cases ho
  exact ⟨s, hs, hres, (reconcile_leaves_others rfl own hs .deployment _ bystander nofun).mpr rfl⟩

/-- A Deployment with the name of the runtime is deleted, whoever it belongs to. -/
theorem foreign_deployment_deleted : ∃ s,
    run (systemStep refuseQuantity) ⟨shared "worker", none⟩ (undisturbed 7) = some s ∧
      (shared "worker").objects .deployment ⟨"agents", "worker"⟩ = some bystander ∧
      bystander.controller ≠ some worker.uid ∧
      s.store.objects .deployment ⟨"agents", "worker"⟩ = none := by
  have observed : (run (systemStep refuseQuantity) ⟨shared "worker", none⟩ (undisturbed 7)).map
      (fun s => (s.store.objects .deployment ⟨"agents", "worker"⟩).isNone) = some true := by decide
  obtain ⟨s, hs, gone⟩ := Option.map_eq_some_iff.mp observed
  exact ⟨s, hs, rfl, nofun, Option.isNone_iff_eq_none.mp gone⟩

end Daedalus.Operator
