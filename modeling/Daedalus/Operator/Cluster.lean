import Daedalus.Foundation.Store
import Daedalus.Operator.Manifest

/-!
# The cluster

The objects that the operator reads and writes through the Kubernetes API, whoever they belong to,
and how the API answers. A read sees the current object. A call may fail without effect, or take
effect and fail. An update of the runtime's status is refused when the runtime was changed since it
was read. A delete that is accepted removes the object at once. A kind that is not served, as the
ScaledJobs without KEDA, has no objects. Of an object's metadata only labels and the controlling
owner are kept.
-/
namespace Daedalus.Operator

open Foundation

structure Key where
  ns : String
  name : String
  deriving DecidableEq, Repr

inductive Kind where
  | configMap
  | service
  | deployment
  | scaledJob
  deriving DecidableEq, Repr

structure ConfigMap where
  labels : Labels
  /-- The UID of the controlling owner. -/
  controller : Option String
  /-- The texts stand for the JSON documents they are. -/
  data : List (String × Json)

structure ServicePort where
  name : String
  protocol : String
  port : ℤ
  targetPort : ℤ
  deriving DecidableEq, Repr

structure Service where
  labels : Labels
  controller : Option String
  type : String
  selector : Labels
  ports : List ServicePort

structure DeploymentSpec where
  replicas : ℤ
  selector : Labels
  podLabels : Labels
  containers : List Container
  imagePullSecrets : List String
  deriving DecidableEq, Repr

structure Deployment where
  labels : Labels
  controller : Option String
  spec : DeploymentSpec

/-- An unstructured object; its labels are in its metadata. -/
structure ScaledJob where
  controller : Option String
  object : Json

abbrev Obj : Kind → Type
  | .configMap => ConfigMap
  | .service => Service
  | .deployment => Deployment
  | .scaledJob => ScaledJob

def Obj.controller : {k : Kind} → Obj k → Option String
  | .configMap, o => ConfigMap.controller o
  | .service, o => Service.controller o
  | .deployment, o => Deployment.controller o
  | .scaledJob, o => ScaledJob.controller o

structure Cluster where
  runtime : Option AgentRuntime
  objects : (k : Kind) → Key → Option (Obj k)

/-- The cluster with one object replaced, or removed. -/
def Cluster.set (c : Cluster) (k : Kind) (key : Key) (o : Option (Obj k)) : Cluster :=
  { c with objects := Function.update c.objects k (Function.update (c.objects k) key o) }

/-! ## The API -/

inductive Op where
  | getRuntime
  | get (k : Kind) (key : Key)
  | create (k : Kind) (key : Key) (o : Obj k)
  | update (k : Kind) (key : Key) (o : Obj k)
  | delete (k : Kind) (key : Key)
  /-- Only the status is written. -/
  | updateStatus (rt : AgentRuntime)

inductive Got (α : Type) where
  | found (a : α)
  | notFound
  /-- The kind is not served. -/
  | noMatch (err : GoError)
  | failed (err : GoError)

abbrev Ans : Op → Type
  | .getRuntime => Got AgentRuntime
  | .get k _ => Got (Obj k)
  | _ => Option GoError

/-- What becomes of a call. -/
inductive Fate where
  | done
  | noMatch (err : GoError)
  /-- It fails without effect. -/
  | lost (err : GoError)
  /-- It takes effect, and fails. -/
  | unconfirmed (err : GoError)

def alreadyExists (key : Key) : GoError := .new (key.name ++ " already exists")

def notFound (key : Key) : GoError := .new (key.name ++ " not found")

def conflict (rt : AgentRuntime) : GoError := .new (rt.name ++ " was changed")

/-- A write to `s` is answered: `possible` says whether it can be done. -/
def write {σ : Type} (s : σ) (possible : Bool) (refusal : GoError) (after : σ) :
    Fate → Option (σ × Option GoError)
  | .done => some (if possible then (after, none) else (s, some refusal))
  | .lost err => some (s, some err)
  | .unconfirmed err => if possible then some (after, some err) else none
  | .noMatch _ => none

/-- The runtime is changed, and counted as changed. -/
def Cluster.changeRuntime (c : Cluster) (change : AgentRuntime → AgentRuntime) : Cluster :=
  { c with
    runtime := c.runtime.map fun rt =>
      { change rt with resourceVersion := rt.resourceVersion + 1 } }

def api : Prog.Store Op Ans Cluster Fate
  | .getRuntime, c, fate =>
    match fate with
    | .done => some (c, c.runtime.elim .notFound .found)
    | .lost err => some (c, .failed err)
    | _ => none
  | .get k key, c, fate =>
    match fate with
    | .done => some (c, (c.objects k key).elim .notFound .found)
    | .noMatch err =>
      if k = .scaledJob ∧ (c.objects k key).isNone then some (c, .noMatch err) else none
    | .lost err => some (c, .failed err)
    | .unconfirmed _ => none
  | .create k key o, c, fate =>
    write c (c.objects k key).isNone (alreadyExists key) (c.set k key (some o)) fate
  | .update k key o, c, fate =>
    write c (c.objects k key).isSome (notFound key) (c.set k key (some o)) fate
  | .delete k key, c, fate =>
    write c (c.objects k key).isSome (notFound key) (c.set k key none) fate
  | .updateStatus rt, c, fate =>
    write c (c.runtime.any (·.resourceVersion == rt.resourceVersion)) (conflict rt)
      (c.changeRuntime ({ · with status := rt.status })) fate

section Calls

/-- A write takes effect, or it is answered by an error. -/
theorem write_cases {σ : Type} {s t after : σ} {possible : Bool} {refusal : GoError} {fate : Fate}
    {ans : Option GoError} (h : write s possible refusal after fate = some (t, ans)) :
    (t = s ∧ ∃ err, ans = some err) ∨ (possible ∧ t = after) := by
  cases fate with
  | done =>
    simp only [write] at h
    split_ifs at h with hp
    · cases h
      exact .inr ⟨hp, rfl⟩
    · cases h
      exact .inl ⟨rfl, refusal, rfl⟩
  | noMatch err => cases h
  | lost err =>
    cases h
    exact .inl ⟨rfl, err, rfl⟩
  | unconfirmed err =>
    simp only [write] at h
    split_ifs at h with hp
    cases h
    exact .inr ⟨hp, rfl⟩

/-- A write that is seen in part. -/
theorem write_map {σ τ : Type} (f : σ → τ) {s t after : σ} {possible : Bool} {refusal : GoError}
    {fate : Fate} {ans : Option GoError}
    (h : write s possible refusal after fate = some (t, ans)) :
    write (f s) possible refusal (f after) fate = some (f t, ans) := by
  cases fate with
  | done =>
    simp only [write] at h ⊢
    split_ifs at h ⊢ <;> cases h <;> rfl
  | noMatch err => cases h
  | lost err =>
    cases h
    rfl
  | unconfirmed err =>
    simp only [write] at h ⊢
    split_ifs at h ⊢
    cases h
    rfl

variable {c t : Cluster} {fate : Fate} {k : Kind} {key : Key}

theorem api_getRuntime {ans : Got AgentRuntime} (h : api .getRuntime c fate = some (t, ans)) :
    t = c ∧ ((c.runtime = none ∧ ans = .notFound) ∨ (∃ rt, c.runtime = some rt ∧ ans = .found rt) ∨
      ∃ err, ans = .failed err) := by
  cases fate with
  | done =>
    cases h
    cases hc : c.runtime with
    | none => exact ⟨rfl, .inl ⟨rfl, rfl⟩⟩
    | some rt => exact ⟨rfl, .inr (.inl ⟨rt, rfl, rfl⟩)⟩
  | lost err =>
    cases h
    exact ⟨rfl, .inr (.inr ⟨err, rfl⟩)⟩
  | noMatch err => cases h
  | unconfirmed err => cases h

/-- What an answer to a read says about the object. -/
theorem api_get {ans : Got (Obj k)} (h : api (.get k key) c fate = some (t, ans)) :
    t = c ∧ ((∃ o, c.objects k key = some o ∧ ans = .found o) ∨
      (c.objects k key = none ∧ (ans = .notFound ∨ ∃ err, ans = .noMatch err)) ∨
      ∃ err, ans = .failed err) := by
  cases fate with
  | done =>
    cases h
    cases hc : c.objects k key with
    | none => exact ⟨rfl, .inr (.inl ⟨rfl, .inl rfl⟩)⟩
    | some o => exact ⟨rfl, .inl ⟨o, rfl, rfl⟩⟩
  | noMatch err =>
    simp only [api] at h
    split_ifs at h with unserved
    cases h
    exact ⟨rfl, .inr (.inl ⟨Option.isNone_iff_eq_none.mp unserved.2, .inr ⟨err, rfl⟩⟩)⟩
  | lost err =>
    cases h
    exact ⟨rfl, .inr (.inr ⟨err, rfl⟩)⟩
  | unconfirmed err => cases h

/-- What a call can do to the runtime: give it a new status. -/
theorem api_runtime {op : Op} {c t : Cluster} {fate : Fate} {ans : Ans op}
    (h : api op c fate = some (t, ans)) : t.runtime = c.runtime ∨
      ∃ status, t.runtime = (c.changeRuntime ({ · with status })).runtime := by
  have written {k : Kind} {key : Key} {o : Option (Obj k)} {possible : Bool} {refusal : GoError}
      {ans : Option GoError} (hw : write c possible refusal (c.set k key o) fate = some (t, ans)) :
      t.runtime = c.runtime := by
    obtain ⟨rfl, -⟩ | ⟨-, rfl⟩ := write_cases hw
    · rfl
    · rfl
  cases op with
  | getRuntime =>
    obtain ⟨rfl, -⟩ := api_getRuntime h
    exact .inl rfl
  | get k key =>
    obtain ⟨rfl, -⟩ := api_get h
    exact .inl rfl
  | create k key o => exact .inl (written h)
  | update k key o => exact .inl (written h)
  | delete k key => exact .inl (written h)
  | updateStatus rt =>
    obtain ⟨rfl, -⟩ | ⟨-, rfl⟩ := write_cases h
    · exact .inl rfl
    · exact .inr ⟨rt.status, rfl⟩

end Calls

/-! ## One object changed -/

section Set

variable {c : Cluster} {k k' : Kind} {key key' : Key} {o : Option (Obj k)}

@[simp] theorem Cluster.set_runtime : (c.set k key o).runtime = c.runtime := rfl

@[simp] theorem Cluster.set_self : (c.set k key o).objects k key = o := by
  simp [Cluster.set]

theorem Cluster.set_of_ne_kind (h : k' ≠ k) :
    (c.set k key o).objects k' key' = c.objects k' key' := by
  simp [Cluster.set, h]

theorem Cluster.set_of_ne_key (h : key' ≠ key) :
    (c.set k key o).objects k key' = c.objects k key' := by
  simp [Cluster.set, h]

end Set

end Daedalus.Operator
