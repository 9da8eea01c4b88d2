import Daedalus.Foundation.Coloring

/-!
# The dependency graph of a schedule

`internal/scheduler/dag.go`. The four maps of the Go type become two key lists (`nodes` and
`completed` only ever hold `true`), the successor lists and the counters, where a missing key
reads as the empty list and as zero. Edges point from a predecessor to its dependents, and
stay between registered nodes.
-/
namespace Daedalus.Scheduler

open Foundation Relation

structure DAG where
  /-- All registered IDs, each once. -/
  nodes : List String
  /-- `edges id` lists the dependents of `id`, with repetitions. -/
  edges : String → List String
  /-- The number of predecessors of a node that are not completed. -/
  inDegree : String → ℤ
  /-- The IDs marked complete, latest first. -/
  completed : List String
  nodes_nodup : nodes.Nodup
  completed_nodup : completed.Nodup
  edges_mem : ∀ a b, b ∈ edges a → a ∈ nodes ∧ b ∈ nodes

inductive DAGError where
  | selfLoop (id : String)
  | nodeNotFound (id : String)
  | cycle (src dst : String)
  | empty
  | cycleDetected (id : String)
  deriving DecidableEq, Repr

def DAGError.text : DAGError → String
  | .selfLoop id => "dag: self-loop on node " ++ id.quote
  | .nodeNotFound id => "dag: node " ++ id.quote ++ " not found"
  | .cycle src dst =>
    "dag: adding edge " ++ src.quote ++ " -> " ++ dst.quote ++ " would create a cycle"
  | .empty => "dag: graph is empty"
  | .cycleDetected id => "dag: cycle detected involving node " ++ id.quote

namespace DAG

/-- `NewDAG`. -/
def new : DAG where
  nodes := []
  edges _ := []
  inDegree _ := 0
  completed := []
  nodes_nodup := List.nodup_nil
  completed_nodup := List.nodup_nil
  edges_mem := by simp

/-- Register a node; a no-op when it exists. -/
def addNode (d : DAG) (id : String) : DAG :=
  if h : id ∈ d.nodes then d
  else
    { d with
      nodes := d.nodes ++ [id]
      nodes_nodup := by
        rw [List.nodup_append]
        refine ⟨d.nodes_nodup, List.nodup_singleton id, ?_⟩
        rintro a ha b hb rfl
        exact h (List.mem_singleton.mp hb ▸ ha)
      edges_mem := fun a b hb => by
        obtain ⟨ha, hb⟩ := d.edges_mem a b hb
        exact ⟨List.mem_append_left _ ha, List.mem_append_left _ hb⟩ }

/-- `b` is a direct dependent of `a`. -/
def Edge (d : DAG) (a b : String) : Prop := b ∈ d.edges a

/-- Iterations the search can need: one for the start and one for each edge. -/
def searchFuel (d : DAG) : ℕ := 1 + unexplored d.edges d.nodes []

/-- Whether `target` can be reached from `start` by following edges. -/
def reachable (d : DAG) (start target : String) : Bool :=
  if start = target then true
  else (search d.edges target d.searchFuel [] [start]).getD false

/-- Add the edge "`src` must complete before `dst`". -/
def addEdge (d : DAG) (src dst : String) : Except DAGError DAG :=
  if src = dst then .error (.selfLoop src)
  else if hs : src ∉ d.nodes then .error (.nodeNotFound src)
  else if hd : dst ∉ d.nodes then .error (.nodeNotFound dst)
  else if d.reachable dst src then .error (.cycle src dst)
  else .ok
    { d with
      edges := Function.update d.edges src (d.edges src ++ [dst])
      inDegree := Function.update d.inDegree dst (d.inDegree dst + 1)
      edges_mem := fun a b hb => by
        rw [Function.update_apply] at hb
        split_ifs at hb with h
        · subst h
          rcases List.mem_append.mp hb with hb | hb
          · exact d.edges_mem a b hb
          · exact ⟨not_not.mp hs, List.mem_singleton.mp hb ▸ not_not.mp hd⟩
        · exact d.edges_mem a b hb }

/-- The nodes with no unmet dependency that are not completed, sorted. -/
def ready (d : DAG) : List String :=
  (d.nodes.filter fun id => id ∉ d.completed ∧ d.inDegree id = 0).insertionSort (· ≤ ·)

/-- The loop body of `Complete`: decrement one counter, and note the successor when its counter
reached zero. -/
def release (completed : List String) (acc : (String → ℤ) × List String) (succ : String) :
    (String → ℤ) × List String :=
  let inDegree := Function.update acc.1 succ (acc.1 succ - 1)
  (inDegree,
    if inDegree succ = 0 ∧ succ ∉ completed then acc.2 ++ [succ] else acc.2)

/-- Mark a node as done and release its successors. The second component lists the successors
whose counter just reached zero. -/
def complete (d : DAG) (id : String) : DAG × List String :=
  if h : id ∈ d.completed then (d, [])
  else
    let acc := (d.edges id).foldl (release (id :: d.completed)) (d.inDegree, [])
    ({ d with
        inDegree := acc.1
        completed := id :: d.completed
        completed_nodup := List.nodup_cons.mpr ⟨h, d.completed_nodup⟩ },
      acc.2)

/-- The number of nodes that are not completed. -/
def remaining (d : DAG) : ℤ := d.nodes.length - d.completed.length

/-- The direct dependents of a node. -/
def dependents (d : DAG) (id : String) : List String := d.edges id

/-- Check that the graph is not empty and has no cycle. `order` is the order in which the node map
is iterated. Every recursive call of the search turns a white node gray, so the number of nodes
bounds their depth, and the fuel does not run out. -/
def validate (d : DAG) (order : List String) : Except DAGError Unit :=
  if d.nodes.length = 0 then .error .empty
  else
    match exploreAll d.edges d.nodes.length order with
    | .ok _ => .ok ()
    | .error (.gray id) => .error (.cycleDetected id)
    | .error .fuel => .error .empty

/-! ## What the operations do -/

theorem mem_ready {d : DAG} {id : String} :
    id ∈ d.ready ↔ id ∈ d.nodes ∧ id ∉ d.completed ∧ d.inDegree id = 0 := by
  simp [ready, List.mem_insertionSort]

theorem ready_nodup (d : DAG) : d.ready.Nodup :=
  (List.perm_insertionSort _ _).nodup_iff.mpr (d.nodes_nodup.filter _)

theorem ready_sorted (d : DAG) : d.ready.Pairwise (· < ·) := by
  have weakly : d.ready.Pairwise (· ≤ ·) := List.pairwise_insertionSort ..
  exact (weakly.and d.ready_nodup).imp fun h => lt_of_le_of_ne h.1 h.2

theorem edges_outside (d : DAG) {a : String} (ha : a ∉ d.nodes) : d.edges a = [] := by
  rw [List.eq_nil_iff_forall_not_mem]
  intro b hb
  exact ha (d.edges_mem a b hb).1

/-- The reachability search terminates with the right answer. -/
theorem reachable_iff (d : DAG) (start target : String) :
    d.reachable start target = true ↔ ReflTransGen d.Edge start target := by
  unfold reachable
  split_ifs with h
  · subst h
    exact ⟨fun _ => .refl, fun _ => rfl⟩
  · have decides := search_decides (fun _ ha => d.edges_outside ha) h
      (le_refl d.searchFuel)
    rw [← show _ ↔ ReflTransGen d.Edge start target from decides]
    cases hs : search d.edges target d.searchFuel [] [start] with
    | none => simp
    | some found => simp

section Validate

variable {d : DAG} {order : List String} (all : ∀ id, id ∈ order ↔ id ∈ d.nodes)
include all

/-- The search of `Validate` ends within its fuel and decides whether there is a cycle. -/
theorem exploreAll_edges {fuel : ℕ} (enough : d.nodes.length ≤ fuel) :
    exploreAll d.edges fuel order ≠ .error .fuel ∧
    ((∃ color, exploreAll d.edges fuel order = .ok color) ↔ Acyclic d.Edge) ∧
    ∀ id, exploreAll d.edges fuel order = .error (.gray id) → TransGen d.Edge id id :=
  exploreAll_decides (fun a b hb => (d.edges_mem a b hb).2) enough (fun a => (all a).mp)
    fun _ ha => d.edges_outside fun hmem => ha ((all _).mpr hmem)

/-- On a graph with nodes, the only errors of `Validate` are cycles. -/
theorem validate_cases (nonempty : d.nodes ≠ []) :
    d.validate order = .ok () ∧ Acyclic d.Edge ∨
      ∃ id, d.validate order = .error (.cycleDetected id) ∧ TransGen d.Edge id id := by
  obtain ⟨fuel, accepts, cycle⟩ := exploreAll_edges all (le_refl d.nodes.length)
  have hlen : d.nodes.length ≠ 0 := by simpa using nonempty
  unfold validate
  rw [if_neg hlen]
  cases h : exploreAll d.edges d.nodes.length order with
  | ok color => exact .inl ⟨rfl, accepts.mp ⟨color, h⟩⟩
  | error halt =>
    cases halt with
    | gray id => exact .inr ⟨id, rfl, cycle id h⟩
    | fuel => exact absurd h fuel

end Validate

/-- What a successful `addEdge` has checked and what it changes. -/
theorem addEdge_ok {d d' : DAG} {src dst : String} (h : d.addEdge src dst = .ok d') :
    src ≠ dst ∧ src ∈ d.nodes ∧ dst ∈ d.nodes ∧ ¬ ReflTransGen d.Edge dst src ∧
      d'.nodes = d.nodes ∧ d'.completed = d.completed ∧
      d'.edges = Function.update d.edges src (d.edges src ++ [dst]) ∧
      d'.inDegree = Function.update d.inDegree dst (d.inDegree dst + 1) := by
  unfold addEdge at h
  split_ifs at h with hne hs hd hr
  cases h
  rw [reachable_iff] at hr
  exact ⟨hne, hs, hd, hr, rfl, rfl, rfl, rfl⟩

/-- A successful `addEdge` adds one edge, and repeated edges are kept apart. -/
theorem count_addEdge {d d' : DAG} {src dst : String} (h : d.addEdge src dst = .ok d')
    (a b : String) :
    (d'.edges a).count b = (d.edges a).count b + if a = src ∧ b = dst then 1 else 0 := by
  obtain ⟨_, _, _, _, _, _, hedges, _⟩ := addEdge_ok h
  rw [hedges, Function.update_apply]
  by_cases ha : a = src
  · by_cases hb : b = dst
    · simp [ha, hb]
    · simp [ha, hb, Ne.symm hb]
  · simp [ha]

theorem edge_addEdge {d d' : DAG} {src dst : String} (h : d.addEdge src dst = .ok d')
    (a b : String) : d'.Edge a b ↔ d.Edge a b ∨ (a = src ∧ b = dst) := by
  have count := count_addEdge h a b
  simp only [Edge, ← List.count_pos_iff]
  grind

theorem release_counter (completed : List String) (acc : (String → ℤ) × List String)
    (succ id : String) :
    (release completed acc succ).1 id = acc.1 id - if succ = id then 1 else 0 := by
  simp only [release, Function.update_apply, eq_comm (a := id)]
  split_ifs with h
  · rw [h]
  · rw [sub_zero]

theorem mem_release {completed : List String} {acc : (String → ℤ) × List String}
    {succ id : String} : id ∈ (release completed acc succ).2 ↔
      id ∈ acc.2 ∨ id = succ ∧ acc.1 succ = 1 ∧ succ ∉ completed := by
  simp only [release, Function.update_self, sub_eq_zero]
  split_ifs with h
  · simp [h]
  · simp [h]

theorem release_foldl (completed : List String) (succs : List String)
    (acc : (String → ℤ) × List String) (id : String) :
    (succs.foldl (release completed) acc).1 id = acc.1 id - succs.count id := by
  induction succs generalizing acc with
  | nil => simp
  | cons succ succs ih =>
    rw [List.foldl_cons, ih, release_counter, List.count_cons]
    simp only [beq_iff_eq, Nat.cast_add, Nat.cast_ite, Nat.cast_one, Nat.cast_zero]
    ring

@[simp] theorem complete_nodes (d : DAG) (id : String) : (d.complete id).1.nodes = d.nodes := by
  unfold complete
  split_ifs <;> rfl

@[simp] theorem complete_edges (d : DAG) (id : String) : (d.complete id).1.edges = d.edges := by
  unfold complete
  split_ifs <;> rfl

@[simp] theorem mem_complete_completed {d : DAG} {id a : String} :
    a ∈ (d.complete id).1.completed ↔ a = id ∨ a ∈ d.completed := by
  unfold complete
  split_ifs with h
  · simp only [iff_or_self]
    rintro rfl
    exact h
  · simp

/-- Completing a node decrements each counter once for every edge to it. -/
theorem complete_inDegree {d : DAG} {id : String} (h : id ∉ d.completed) (a : String) :
    (d.complete id).1.inDegree a = d.inDegree a - (d.edges id).count a := by
  simp [complete, h, release_foldl]

theorem complete_remaining {d : DAG} {id : String} (h : id ∉ d.completed) :
    (d.complete id).1.remaining = d.remaining - 1 := by
  simp [complete, h, remaining]
  ring

end DAG

end Daedalus.Scheduler
