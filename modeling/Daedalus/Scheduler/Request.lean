import Daedalus.Foundation.Run
import Daedalus.Dispatch.Dispatcher
import Daedalus.Scheduler.DAG

/-!
# Schedule requests and their validation

The first half of `Scheduler.Schedule` in `internal/scheduler/scheduler.go`: index the tasks,
build the graph edge by edge, validate it. Go iterates maps in an arbitrary order; the orders
of the two map iterations are parameters.

A request that passes is an acyclic dependency relation on distinct IDs, and the graph built
from it is `Tracks`-related to it with nothing completed.
-/
namespace Daedalus.Scheduler

open Foundation Relation Dispatch

/-- A task with the IDs of the tasks that must complete before it. -/
structure ScheduledTask extends TaskSpec where
  dependsOn : List String := []
  deriving DecidableEq, Repr

structure ScheduleRequest where
  tasks : List ScheduledTask
  contextID : String := ""
  deriving DecidableEq, Repr

inductive ScheduleError where
  | noTasks
  | emptyID (index : ℕ)
  | duplicateID (id : String) (index : ℕ)
  | unknownDependency (task dep : String)
  | dag (err : DAGError)
  deriving DecidableEq, Repr

def ScheduleError.text : ScheduleError → String
  | .noTasks => "scheduler: ScheduleRequest must have at least one task"
  | .emptyID i => "scheduler: task at index " ++ toString i ++ " has empty ID"
  | .duplicateID id i =>
    "scheduler: duplicate task ID " ++ id.quote ++ " at index " ++ toString i
  | .unknownDependency task dep =>
    "scheduler: task " ++ task.quote ++ " depends on unknown task " ++ dep.quote
  | .dag err => "scheduler: " ++ err.text

namespace ScheduleRequest

def ids (req : ScheduleRequest) : List String := req.tasks.map (·.id)

/-- The dependencies of the task with the given ID, with repetitions. -/
def deps (req : ScheduleRequest) (id : String) : List String :=
  (req.tasks.filter (·.id = id)).flatMap (·.dependsOn)

/-- The orders in which Go iterates `taskByID` and the node map. -/
structure MapOrder (req : ScheduleRequest) where
  tasks : List String
  nodes : List String
  tasks_perm : tasks.Perm req.ids
  nodes_perm : nodes.Perm req.ids

/-- The loop body that fills `taskByID`. -/
def indexTask (taskByID : String → Option ScheduledTask) (entry : ScheduledTask × ℕ) :
    Except ScheduleError (String → Option ScheduledTask) :=
  let (t, i) := entry
  if t.id = "" then .error (.emptyID i)
  else if (taskByID t.id).isSome then .error (.duplicateID t.id i)
  else .ok (Function.update taskByID t.id (some t))

/-- The loop body that adds one edge. -/
def addDependency (taskByID : String → Option ScheduledTask) (id : String) (d : DAG)
    (dep : String) : Except ScheduleError DAG :=
  if (taskByID dep).isNone then .error (.unknownDependency id dep)
  else match d.addEdge dep id with
    | .error err => .error (.dag err)
    | .ok d => .ok d

/-- The loop body that adds the edges of one task. -/
def addDependencies (taskByID : String → Option ScheduledTask) (d : DAG) (t : ScheduledTask) :
    Except ScheduleError DAG :=
  t.dependsOn.foldlM (addDependency taskByID t.id) d

/-- Everything `Schedule` does before its main loop: the graph the loop starts with, or the
error it returns. -/
def validate (req : ScheduleRequest) (order : req.MapOrder) : Except ScheduleError DAG := do
  if req.tasks.length = 0 then throw .noTasks
  let taskByID ← req.tasks.zipIdx.foldlM indexTask fun _ => none
  let d := order.tasks.foldl DAG.addNode DAG.new
  let d ← req.tasks.foldlM (addDependencies taskByID) d
  match d.validate order.nodes with
  | .error err => throw (.dag err)
  | .ok () => return d

end ScheduleRequest

open ScheduleRequest

/-! ## Indexing -/

/-- `taskByID` after some tasks: their IDs are distinct and exactly its keys. -/
structure Indexed (ids : List String) (taskByID : String → Option ScheduledTask) : Prop where
  nodup : ids.Nodup
  nonempty : "" ∉ ids
  keys : ∀ id, (taskByID id).isSome ↔ id ∈ ids

theorem indexTask_indexed {past : List (ScheduledTask × ℕ)}
    {m m' : String → Option ScheduledTask} {entry : ScheduledTask × ℕ}
    (h : Indexed (past.map (·.1.id)) m) (hok : indexTask m entry = .ok m') :
    Indexed ((past ++ [entry]).map (·.1.id)) m' := by
  obtain ⟨t, i⟩ := entry
  simp only [indexTask] at hok
  split_ifs at hok with hempty hdup
  cases hok
  have fresh : t.id ∉ past.map (·.1.id) := fun ht => hdup ((h.keys t.id).mpr ht)
  simp only [List.map_append, List.map_cons, List.map_nil]
  refine ⟨?_, ?_, ?_⟩
  · rw [List.nodup_append]
    refine ⟨h.nodup, List.nodup_singleton _, ?_⟩
    rintro a ha b hb rfl
    exact fresh (List.mem_singleton.mp hb ▸ ha)
  · simp only [List.mem_append, List.mem_singleton, not_or]
    exact ⟨h.nonempty, fun e => hempty e.symm⟩
  · intro id
    rw [Function.update_apply]
    by_cases e : id = t.id
    · simp [e]
    · simp [e, h.keys id]

/-! ## Building the graph -/

theorem foldl_addNode (ids : List String) (d : DAG) :
    (ids.foldl DAG.addNode d).edges = d.edges ∧
      (ids.foldl DAG.addNode d).inDegree = d.inDegree ∧
      (ids.foldl DAG.addNode d).completed = d.completed ∧
      (ids.Nodup → (∀ id ∈ ids, id ∉ d.nodes) →
        (ids.foldl DAG.addNode d).nodes = d.nodes ++ ids) := by
  induction ids generalizing d with
  | nil => simp
  | cons id ids ih =>
    obtain ⟨h₁, h₂, h₃, h₄⟩ := ih (d.addNode id)
    rw [List.foldl_cons]
    by_cases h : id ∈ d.nodes
    · have e : d.addNode id = d := by simp [DAG.addNode, h]
      rw [e] at h₁ h₂ h₃ ⊢
      exact ⟨h₁, h₂, h₃, fun _ new => absurd h (new id List.mem_cons_self)⟩
    · refine ⟨h₁.trans (by simp [DAG.addNode, h]), h₂.trans (by simp [DAG.addNode, h]),
        h₃.trans (by simp [DAG.addNode, h]), ?_⟩
      intro nd new
      have hnodes : (d.addNode id).nodes = d.nodes ++ [id] := by simp [DAG.addNode, h]
      rw [h₄ nd.of_cons ?_, hnodes, List.append_assoc, List.singleton_append]
      intro a ha
      rw [hnodes, List.mem_append, List.mem_singleton]
      rintro (hd | rfl)
      · exact new a (List.mem_cons_of_mem _ ha) hd
      · exact (List.nodup_cons.mp nd).1 ha

/-- The graph after adding the given edges, each a predecessor with its dependent. -/
structure Built (nodes : List String) (pairs : List (String × String)) (d : DAG) : Prop where
  nodes_eq : d.nodes = nodes
  completed : d.completed = []
  edges : ∀ a b, (d.edges a).count b = pairs.count (a, b)
  inDegree : ∀ b, d.inDegree b = pairs.countP (·.2 = b)
  acyclic : Acyclic d.Edge

theorem Built.addEdge {nodes : List String} {pairs : List (String × String)} {d d' : DAG}
    {src dst : String} (h : Built nodes pairs d) (hok : d.addEdge src dst = .ok d') :
    Built nodes (pairs ++ [(src, dst)]) d' := by
  obtain ⟨_, _, _, hpath, hn, hc, _, hi⟩ := DAG.addEdge_ok hok
  refine ⟨hn.trans h.nodes_eq, hc.trans h.completed, ?_, ?_, ?_⟩
  · intro a b
    rw [DAG.count_addEdge hok, List.count_append, ← h.edges a b]
    grind
  · intro b
    rw [hi, Function.update_apply, List.countP_append]
    by_cases e : b = dst
    · subst e
      simp [h.inDegree]
    · simp [e, h.inDegree, Ne.symm e]
  · have hedge : d'.Edge = fun a b => d.Edge a b ∨ (a = src ∧ b = dst) := by
      funext a b
      exact propext (DAG.edge_addEdge hok a b)
    rw [hedge]
    exact h.acyclic.insert hpath

/-- The edges of a request in the order they are added. -/
def ScheduleRequest.pairs (tasks : List ScheduledTask) : List (String × String) :=
  tasks.flatMap fun t => t.dependsOn.map fun dep => (dep, t.id)

/-- Adding the edges of one task; every dependency is a known task. -/
theorem Built.addDependencies {nodes : List String} {pairs : List (String × String)} {d d' : DAG}
    {m : String → Option ScheduledTask} {t : ScheduledTask} (h : Built nodes pairs d)
    (hok : addDependencies m d t = .ok d') :
    Built nodes (pairs ++ t.dependsOn.map fun dep => (dep, t.id)) d' ∧
      ∀ dep ∈ t.dependsOn, (m dep).isSome := by
  refine foldlM_history (fun past d =>
    Built nodes (pairs ++ past.map fun dep => (dep, t.id)) d ∧ ∀ dep ∈ past, (m dep).isSome)
    ?_ hok ⟨by simpa using h, by simp⟩
  rintro past d dep d' ⟨hb, hk⟩ hstep
  unfold addDependency at hstep
  split_ifs at hstep with hnone
  cases hadd : d.addEdge dep t.id with
  | error err => simp [hadd] at hstep
  | ok e =>
    simp only [hadd] at hstep
    cases hstep
    refine ⟨?_, ?_⟩
    · rw [List.map_append, ← List.append_assoc]
      exact hb.addEdge hadd
    · intro a ha
      rcases List.mem_append.mp ha with ha | ha
      · exact hk a ha
      · rw [List.mem_singleton.mp ha]
        exact Option.isSome_iff_ne_none.mpr fun e => hnone (by simp [e])

theorem Built.addAll {nodes : List String} {d d' : DAG} {m : String → Option ScheduledTask}
    {tasks : List ScheduledTask} (h : Built nodes [] d)
    (hok : tasks.foldlM (ScheduleRequest.addDependencies m) d = .ok d') :
    Built nodes (pairs tasks) d' ∧ ∀ t ∈ tasks, ∀ dep ∈ t.dependsOn, (m dep).isSome := by
  refine foldlM_history (fun past d =>
    Built nodes (pairs past) d ∧ ∀ t ∈ past, ∀ dep ∈ t.dependsOn, (m dep).isSome)
    ?_ hok ⟨h, by simp⟩
  rintro past d t d' ⟨hb, hk⟩ hstep
  obtain ⟨hb', hk'⟩ := hb.addDependencies hstep
  refine ⟨by simpa [pairs] using hb', ?_⟩
  intro a ha
  rcases List.mem_append.mp ha with ha | ha
  · exact hk a ha
  · rw [List.mem_singleton.mp ha]
    exact hk'

/-! ## The request as a dependency relation -/

namespace ScheduleRequest

variable {req : ScheduleRequest}

theorem count_pairs (req : ScheduleRequest) (a b : String) :
    (pairs req.tasks).count (a, b) = (req.deps b).count a := by
  unfold pairs deps
  induction req.tasks with
  | nil => simp
  | cons t tasks ih =>
    rw [List.flatMap_cons, List.count_append, ih]
    by_cases e : t.id = b
    · have inj : Function.Injective fun dep : String => (dep, b) :=
        fun _ _ h => (Prod.mk.inj h).1
      subst e
      simp [List.count_map_of_injective _ _ inj]
    · have none : (t.dependsOn.map fun dep => (dep, t.id)).count (a, b) = 0 := by
        simp [List.count_eq_zero, e]
      simp [e, none]

theorem countP_pairs (req : ScheduleRequest) (b : String) :
    (pairs req.tasks).countP (·.2 = b) = (req.deps b).length := by
  unfold pairs deps
  induction req.tasks with
  | nil => simp
  | cons t tasks ih =>
    rw [List.flatMap_cons, List.countP_append, ih, List.countP_map]
    by_cases e : t.id = b <;> simp [e, Function.comp_def]

/-- With distinct IDs, the dependencies found by ID are those of the task itself. -/
theorem deps_of_mem (nodup : req.ids.Nodup) {t : ScheduledTask} (ht : t ∈ req.tasks) :
    req.deps t.id = t.dependsOn := by
  unfold ids at nodup
  unfold deps
  generalize req.tasks = tasks at nodup ht ⊢
  induction tasks with
  | nil => simp at ht
  | cons u tasks ih =>
    rw [List.map_cons, List.nodup_cons] at nodup
    rcases List.mem_cons.mp ht with rfl | ht
    · have others : tasks.filter (·.id = t.id) = [] := by
        rw [List.filter_eq_nil_iff]
        intro v hv e
        exact nodup.1 (of_decide_eq_true e ▸ List.mem_map_of_mem hv)
      simp [others]
    · have ne : u.id ≠ t.id := fun e => nodup.1 (e ▸ List.mem_map_of_mem ht)
      simpa [ne] using ih nodup.2 ht

theorem mem_deps {a b : String} (h : a ∈ req.deps b) :
    ∃ t ∈ req.tasks, t.id = b ∧ a ∈ t.dependsOn := by
  simp only [deps, List.mem_flatMap, List.mem_filter, decide_eq_true_eq] at h
  obtain ⟨t, ⟨ht, e⟩, ha⟩ := h
  exact ⟨t, ht, e, ha⟩

/-- A well-formed request: distinct non-empty IDs, known dependencies, no cycle. -/
structure Valid (req : ScheduleRequest) : Prop where
  nodup : req.ids.Nodup
  nonempty : "" ∉ req.ids
  known : ∀ a b, a ∈ req.deps b → a ∈ req.ids
  acyclic : Acyclic fun a b => a ∈ req.deps b

/-- Dependencies can be followed downwards only finitely often. -/
theorem Valid.wellFounded (h : req.Valid) : WellFounded fun a b => a ∈ req.deps b :=
  h.acyclic.wellFounded (List.finite_toSet req.ids) h.known

end ScheduleRequest

/-- The graph follows the request: its edges are the dependencies, with multiplicity, and each
counter is the number of dependencies that are not completed. -/
structure Tracks (req : ScheduleRequest) (d : DAG) : Prop where
  nodes : d.nodes.Perm req.ids
  edges : ∀ a b, (d.edges a).count b = (req.deps b).count a
  inDegree : ∀ b, d.inDegree b = (req.deps b).countP (· ∉ d.completed)
  completed : ∀ a ∈ d.completed, a ∈ req.ids

namespace Tracks

variable {req : ScheduleRequest} {d : DAG}

theorem mem_edges (h : Tracks req d) {a b : String} : b ∈ d.edges a ↔ a ∈ req.deps b := by
  rw [← List.count_pos_iff, ← List.count_pos_iff, h.edges a b]

/-- The nodes offered by `Ready` are those whose dependencies are all completed. -/
theorem mem_ready (h : Tracks req d) {id : String} :
    id ∈ d.ready ↔ id ∈ req.ids ∧ id ∉ d.completed ∧ ∀ a ∈ req.deps id, a ∈ d.completed := by
  rw [DAG.mem_ready, h.nodes.mem_iff, h.inDegree]
  simp

/-- Completing a node keeps the counters right. -/
theorem complete (h : Tracks req d) {id : String} (hid : id ∈ req.ids)
    (hc : id ∉ d.completed) : Tracks req (d.complete id).1 := by
  refine ⟨by simpa using h.nodes, by simpa using h.edges, ?_, ?_⟩
  · intro b
    rw [DAG.complete_inDegree hc, h.inDegree b, h.edges id b]
    generalize req.deps b = l
    have split : l.countP (· ∉ d.completed) =
        l.count id + l.countP (· ∉ (d.complete id).1.completed) := by
      induction l with
      | nil => simp
      | cons a l ih =>
        simp only [List.countP_cons, List.count_cons, ih, DAG.mem_complete_completed]
        by_cases e : a = id
        · simp [e, hc]
          omega
        · simp [e]
          omega
    rw [split]
    push_cast
    ring
  · intro a ha
    rw [DAG.mem_complete_completed] at ha
    rcases ha with rfl | ha
    · exact hid
    · exact h.completed a ha

end Tracks

/-- A request that passes validation is well formed, and the main loop starts with a graph that
follows it. -/
theorem validate_ok {req : ScheduleRequest} {order : req.MapOrder} {d : DAG}
    (h : req.validate order = .ok d) : req.Valid ∧ Tracks req d ∧ d.completed = [] := by
  unfold ScheduleRequest.validate at h
  split_ifs at h with hlen
  · cases h
  simp only [bind_eq_ok] at h
  obtain ⟨m, hindex, d', hadd, hval⟩ := h
  have hd : d' = d := by
    cases hv : d'.validate order.nodes with
    | error err =>
      rw [hv] at hval
      cases hval
    | ok u =>
      rw [hv] at hval
      cases hval
      rfl
  subst hd
  have indexed : Indexed req.ids m := by
    have start : Indexed [] fun _ : String => (none : Option ScheduledTask) :=
      ⟨List.nodup_nil, by simp, by simp⟩
    have := foldlM_history (fun past m => Indexed (past.map (·.1.id)) m)
      (fun _ _ _ _ h hok => indexTask_indexed h hok) hindex start
    have fst : (fun entry : ScheduledTask × ℕ => entry.1.id) = (·.id) ∘ Prod.fst := rfl
    rwa [fst, ← List.map_map, List.zipIdx_map_fst] at this
  obtain ⟨he, hi, hc, hn⟩ := foldl_addNode order.tasks DAG.new
  have hn := hn (order.tasks_perm.nodup_iff.mpr indexed.nodup) (by simp [DAG.new])
  have empty : Built order.tasks [] (order.tasks.foldl DAG.addNode DAG.new) := by
    refine ⟨hn, hc, fun a b => by rw [he]; rfl, fun b => by rw [hi]; rfl, ?_⟩
    intro a ha
    obtain ⟨b, hb, _⟩ := TransGen.head'_iff.mp ha
    rw [DAG.Edge, he] at hb
    exact List.not_mem_nil hb
  obtain ⟨built, known⟩ := empty.addAll hadd
  have tracks : Tracks req d' := by
    refine ⟨built.nodes_eq ▸ order.tasks_perm, ?_, ?_, by simp [built.completed]⟩
    · intro a b
      rw [built.edges, count_pairs]
    · intro b
      rw [built.inDegree, countP_pairs, built.completed]
      simp
  refine ⟨⟨indexed.nodup, indexed.nonempty, ?_, ?_⟩, tracks, built.completed⟩
  · intro a b hab
    obtain ⟨t, ht, _, ha⟩ := mem_deps hab
    exact (indexed.keys a).mp (known t ht a ha)
  · have hedge : d'.Edge = fun a b => a ∈ req.deps b := by
      funext a b
      exact propext tracks.mem_edges
    exact hedge ▸ built.acyclic

end Daedalus.Scheduler
