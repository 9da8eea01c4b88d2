import Daedalus.Foundation.Run
import Daedalus.Scheduler.DAG

/-!
# The graph under every sequence of calls

`Schedule` builds its graph first and completes nodes afterwards, but nothing in the type asks for
that order. What the counters stand for is a sum over the edges (`unmet`), and every method either
keeps the equation or breaks it: an edge from a completed node is counted although it is met, and
the completion of an ID that was never registered is subtracted from the nodes that remain.
-/
namespace Daedalus.Scheduler.DAG

open Foundation Relation

/-- The edges into `n`, with multiplicity, whose source is not completed. -/
def unmet (d : DAG) (n : String) : ℕ :=
  ∑ a ∈ d.nodes.toFinset with a ∉ d.completed, (d.edges a).count n

/-- The fields and what the methods report are what their names say. -/
structure Represents (d : DAG) : Prop where
  inDegree : ∀ n, d.inDegree n = d.unmet n
  remaining : d.remaining = (d.nodes.filter (· ∉ d.completed)).length
  ready : ∀ n, n ∈ d.ready ↔
    n ∈ d.nodes ∧ n ∉ d.completed ∧ ∀ a, d.Edge a n → a ∈ d.completed
  ready_sorted : d.ready.Pairwise (· ≤ ·)
  ready_nodup : d.ready.Nodup

/-- A call of one of the three methods that change a graph. -/
inductive Call where
  | addNode (id : String)
  | addEdge (src dst : String)
  | complete (id : String)
  deriving DecidableEq, Repr

/-- The graph after a call. A refused edge leaves it as it was. -/
def call (d : DAG) : Call → Option DAG
  | .addNode id => some (d.addNode id)
  | .addEdge src dst =>
    match d.addEdge src dst with
    | .error _ => some d
    | .ok d' => some d'
  | .complete id => some (d.complete id).1

/-- An accepted edge starts at a node that is not completed, and only registered nodes are
completed. -/
def Call.InOrder (d : DAG) : Call → Prop
  | .addNode _ => True
  | .addEdge src dst =>
    src ∈ d.completed → src = dst ∨ src ∉ d.nodes ∨ dst ∉ d.nodes ∨ d.reachable dst src
  | .complete id => id ∈ d.nodes

instance (d : DAG) : DecidablePred (Call.InOrder d)
  | .addNode _ => isTrue trivial
  | .addEdge src dst => inferInstanceAs (Decidable
      (src ∈ d.completed → src = dst ∨ src ∉ d.nodes ∨ dst ∉ d.nodes ∨ d.reachable dst src))
  | .complete id => inferInstanceAs (Decidable (id ∈ d.nodes))

/-! ## The counters -/

section Counters

variable {d d' : DAG} {id src dst : String}

theorem addNode_edges (d : DAG) (id : String) : (d.addNode id).edges = d.edges := by
  unfold addNode
  split_ifs <;> rfl

theorem addNode_completed (d : DAG) (id : String) : (d.addNode id).completed = d.completed := by
  unfold addNode
  split_ifs <;> rfl

theorem addNode_inDegree (d : DAG) (id : String) : (d.addNode id).inDegree = d.inDegree := by
  unfold addNode
  split_ifs <;> rfl

theorem mem_addNode_nodes {a : String} : a ∈ (d.addNode id).nodes ↔ a ∈ d.nodes ∨ a = id := by
  unfold addNode
  split_ifs with h
  · grind
  · simp

/-- No edge into a node is unmet exactly when all its predecessors are completed. -/
theorem unmet_eq_zero {n : String} :
    d.unmet n = 0 ↔ ∀ a, d.Edge a n → a ∈ d.completed := by
  simp only [unmet, Finset.sum_eq_zero_iff, Finset.mem_filter, List.mem_toFinset,
    List.count_eq_zero]
  constructor
  · intro h a ha
    by_contra hc
    exact h a ⟨(d.edges_mem a n ha).1, hc⟩ ha
  · rintro h a ⟨_, hc⟩ ha
    exact hc (h a ha)

/-- A new node has no edges yet. -/
theorem unmet_addNode (d : DAG) (id n : String) : (d.addNode id).unmet n = d.unmet n := by
  unfold unmet
  rw [addNode_edges, addNode_completed]
  symm
  apply Finset.sum_subset
  · intro a ha
    simp only [Finset.mem_filter, List.mem_toFinset, mem_addNode_nodes] at ha ⊢
    exact ⟨.inl ha.1, ha.2⟩
  · intro a ha hnew
    simp only [Finset.mem_filter, List.mem_toFinset] at ha hnew
    have outside : a ∉ d.nodes := fun hmem => hnew ⟨hmem, ha.2⟩
    simp [d.edges_outside outside]

/-- An accepted edge is one more unmet edge, unless it starts at a completed node. -/
theorem unmet_addEdge (hok : d.addEdge src dst = .ok d') (n : String) :
    d'.unmet n = d.unmet n + if src ∉ d.completed ∧ n = dst then 1 else 0 := by
  obtain ⟨_, hmem, _, _, hnodes, hcompleted, _⟩ := addEdge_ok hok
  unfold unmet
  rw [hnodes, hcompleted]
  have count : ∀ a, (d'.edges a).count n =
      (d.edges a).count n + if a = src then (if n = dst then 1 else 0) else 0 := by
    intro a
    rw [count_addEdge hok, ite_and]
  simp only [count, Finset.sum_add_distrib]
  rw [Finset.sum_ite_eq', ite_and]
  simp [hmem]

/-- Completing a node takes its edges out of the sum. An ID that is no node has none. -/
theorem unmet_complete (hc : id ∉ d.completed) (n : String) :
    (d.complete id).1.unmet n + (d.edges id).count n = d.unmet n := by
  unfold unmet
  have erased : (d.complete id).1.nodes.toFinset.filter (· ∉ (d.complete id).1.completed) =
      (d.nodes.toFinset.filter (· ∉ d.completed)).erase id := by
    ext a
    simp only [Finset.mem_filter, Finset.mem_erase, List.mem_toFinset, complete_nodes,
      mem_complete_completed]
    grind
  rw [erased, complete_edges]
  by_cases hid : id ∈ d.nodes
  · apply Finset.sum_erase_add
    simp [hid, hc]
  · rw [Finset.erase_eq_of_notMem (by simp [hid])]
    simp [d.edges_outside hid]

end Counters

/-! ## Calls and runs -/

/-- What the methods keep when they are called in order. -/
structure Counted (d : DAG) : Prop where
  inDegree : ∀ n, d.inDegree n = d.unmet n
  completed : ∀ a ∈ d.completed, a ∈ d.nodes

theorem Counted.new : Counted .new := by
  constructor
  · intro n
    simp [DAG.new, unmet]
  · simp [DAG.new]

theorem Counted.addNode {d : DAG} (h : Counted d) (id : String) : Counted (d.addNode id) := by
  constructor
  · intro n
    rw [addNode_inDegree, unmet_addNode, h.inDegree]
  · intro a ha
    rw [addNode_completed] at ha
    exact mem_addNode_nodes.mpr (.inl (h.completed a ha))

theorem Counted.addEdge {d d' : DAG} {src dst : String} (h : Counted d)
    (hok : d.addEdge src dst = .ok d') (hsrc : src ∉ d.completed) : Counted d' := by
  obtain ⟨_, _, _, _, hnodes, hcompleted, _, hinDegree⟩ := addEdge_ok hok
  constructor
  · intro n
    rw [unmet_addEdge hok, hinDegree, Function.update_apply]
    by_cases hn : n = dst
    · simp [hn, hsrc, h.inDegree]
    · simp [hn, h.inDegree]
  · rw [hnodes, hcompleted]
    exact h.completed

theorem Counted.complete {d : DAG} {id : String} (h : Counted d) (hid : id ∈ d.nodes) :
    Counted (d.complete id).1 := by
  by_cases hc : id ∈ d.completed
  · have same : (d.complete id).1 = d := by simp [DAG.complete, hc]
    rwa [same]
  · constructor
    · intro n
      have := unmet_complete hc n
      rw [complete_inDegree hc, h.inDegree]
      omega
    · intro a ha
      rw [complete_nodes]
      rcases mem_complete_completed.mp ha with rfl | ha
      · exact hid
      · exact h.completed a ha

/-- A call in order keeps the counters right. -/
theorem Counted.call {d d' : DAG} {c : Call} (h : Counted d) (ok : c.InOrder d)
    (hs : d.call c = some d') : Counted d' := by
  cases c with
  | addNode id =>
    cases hs
    exact h.addNode id
  | addEdge src dst =>
    simp only [DAG.call] at hs
    split at hs
    · cases hs
      exact h
    · rename_i hadd
      cases hs
      obtain ⟨hne, hsrc, hdst, hpath, _⟩ := addEdge_ok hadd
      refine h.addEdge hadd fun hc => ?_
      obtain e | hout | hout | hreach := ok hc
      · exact hne e
      · exact hout hsrc
      · exact hout hdst
      · exact hpath ((reachable_iff ..).mp hreach)
  | complete id =>
    cases hs
    exact h.complete ok

/-- Right counters make the reports right. -/
theorem Counted.represents {d : DAG} (h : Counted d) : Represents d where
  inDegree := h.inDegree
  remaining := by
    have split := d.nodes.length_eq_countP_add_countP (· ∈ d.completed)
    have inside : (d.nodes.filter (· ∈ d.completed)).Perm d.completed := by
      apply (List.perm_ext_iff_of_nodup (d.nodes_nodup.filter _) d.completed_nodup).mpr
      intro a
      simpa using h.completed a
    have := inside.length_eq
    simp only [List.countP_eq_length_filter, decide_eq_true_eq] at split
    unfold remaining
    omega
  ready n := by
    rw [mem_ready, h.inDegree, Nat.cast_eq_zero, unmet_eq_zero]
  ready_sorted := d.ready_sorted.imp le_of_lt
  ready_nodup := d.ready_nodup

/-- The representation invariant. In every run from a fresh graph in which each accepted edge
starts at a node that is not completed and only registered nodes are completed, every counter is
the number of unmet edges, `Remaining` counts the registered nodes that are not completed, and
`Ready` lists, sorted, those of them whose predecessors are all completed. -/
theorem represents_of_inOrder {calls : List Call} {d : DAG}
    (ordered : Meets call (fun d c => c.InOrder d) .new calls)
    (h : run call .new calls = some d) : Represents d := by
  have counted : Counted d :=
    ordered.invariant Counted (fun _ _ _ hd ok hs => hd.call ok hs) h .new
  exact counted.represents

/-- An edge is added twice, and another one after a node was completed. -/
def interleaved : List Call := [
  .addNode "a", .addNode "b", .addEdge "a" "b", .addEdge "a" "b", .complete "a", .addNode "c",
  .addEdge "b" "c", .addEdge "c" "a", .complete "a"]

theorem represents_of_inOrder_interleaved :
    ∃ d, run call .new interleaved = some d ∧ d.ready = ["b"] ∧ d.Represents := by
  have ready : (run call .new interleaved).map ready = some ["b"] := by decide
  obtain ⟨d, hd, hready⟩ := Option.map_eq_some_iff.mp ready
  exact ⟨d, hd, hready, represents_of_inOrder (by decide) hd⟩

/-- An edge from a completed node holds its target back for good, and completing an unknown ID makes
the number of remaining nodes negative. -/
theorem counters_drift :
    (∃ d, run call .new [.addNode "a", .addNode "b", .complete "a", .addEdge "a" "b"] = some d ∧
      d.inDegree "b" = 1 ∧ d.unmet "b" = 0 ∧ d.ready = [] ∧ ¬ d.Represents) ∧
    ∃ d, run call .new [.complete "a"] = some d ∧ d.remaining = -1 ∧ ¬ d.Represents := by
  constructor
  · have drift : (run call .new [.addNode "a", .addNode "b", .complete "a", .addEdge "a" "b"]).map
        (fun d => (d.inDegree "b", d.unmet "b", d.ready)) = some (1, 0, []) := by decide
    obtain ⟨d, hd, hvalues⟩ := Option.map_eq_some_iff.mp drift
    obtain ⟨hin, hunmet, hready⟩ : d.inDegree "b" = 1 ∧ d.unmet "b" = 0 ∧ d.ready = [] := by
      simpa using hvalues
    refine ⟨d, hd, hin, hunmet, hready, fun right => ?_⟩
    have := right.inDegree "b"
    omega
  · have drift : (run call .new [.complete "a"]).map remaining = some (-1) := by decide
    obtain ⟨d, hd, hremaining⟩ := Option.map_eq_some_iff.mp drift
    refine ⟨d, hd, hremaining, fun right => ?_⟩
    have := right.remaining
    omega

/-! ## Acyclicity -/

theorem acyclic_new : Acyclic DAG.new.Edge := by
  intro a cycle
  obtain ⟨b, edge, _⟩ := TransGen.head'_iff.mp cycle
  simp [DAG.new, Edge] at edge

theorem acyclic_addEdge {d d' : DAG} {src dst : String} (h : Acyclic d.Edge)
    (hok : d.addEdge src dst = .ok d') : Acyclic d'.Edge := by
  have hpath := (addEdge_ok hok).2.2.2.1
  have hedge : d'.Edge = fun a b => d.Edge a b ∨ (a = src ∧ b = dst) := by
    funext a b
    exact propext (edge_addEdge hok a b)
  rw [hedge]
  exact h.insert hpath

/-- No call closes a cycle: only `AddEdge` changes the edges, and it looks for a path back. -/
theorem acyclic_call {d d' : DAG} {c : Call} (h : Acyclic d.Edge) (hs : d.call c = some d') :
    Acyclic d'.Edge := by
  cases c with
  | addNode id =>
    cases hs
    have same : (d.addNode id).Edge = d.Edge := by
      funext a b
      rw [Edge, Edge, addNode_edges]
    rwa [same]
  | addEdge src dst =>
    simp only [call] at hs
    split at hs
    · cases hs
      exact h
    · rename_i hadd
      cases hs
      exact acyclic_addEdge h hadd
  | complete id =>
    cases hs
    have same : (d.complete id).1.Edge = d.Edge := by
      funext a b
      rw [Edge, Edge, complete_edges]
    rwa [same]

/-- Every call returns. -/
theorem call_isSome (d : DAG) (c : Call) : ∃ d', d.call c = some d' := by
  cases c with
  | addNode id => exact ⟨_, rfl⟩
  | addEdge src dst =>
    cases h : d.addEdge src dst with
    | error err => exact ⟨d, by simp [call, h]⟩
    | ok d' => exact ⟨d', by simp [call, h]⟩
  | complete id => exact ⟨_, rfl⟩

theorem run_call_isSome (d : DAG) (calls : List Call) : ∃ d', run call d calls = some d' := by
  induction calls generalizing d with
  | nil => exact ⟨d, rfl⟩
  | cons c calls ih =>
    obtain ⟨d₁, h₁⟩ := call_isSome d c
    obtain ⟨d₂, h₂⟩ := ih d₁
    exact ⟨d₂, run_cons.mpr ⟨d₁, h₁, h₂⟩⟩

theorem addEdge_error_iff (d : DAG) (src dst : String) :
    (∃ err, d.addEdge src dst = .error err) ↔
      src = dst ∨ src ∉ d.nodes ∨ dst ∉ d.nodes ∨ ReflTransGen d.Edge dst src := by
  rw [← reachable_iff]
  unfold addEdge
  split_ifs with hne hs hd hr
  · simp [hne]
  · simp [hr]
  · simp [hne, hs, hd, hr]
  · simp [hd]
  · simp [hs]

/-- What `AddEdge(src, dst)` does to a graph. -/
structure EdgeExact (d : DAG) (src dst : String) : Prop where
  fails : (∃ err, d.addEdge src dst = .error err) ↔
    src = dst ∨ src ∉ d.nodes ∨ dst ∉ d.nodes ∨ ReflTransGen d.Edge dst src
  refused : ∀ err, d.addEdge src dst = .error err → d.call (.addEdge src dst) = some d
  accepted : ∀ d', d.addEdge src dst = .ok d' → d.call (.addEdge src dst) = some d'
  added : ∀ d', d.addEdge src dst = .ok d' →
    d'.nodes = d.nodes ∧ d'.completed = d.completed ∧
    (∀ a b, (d'.edges a).count b = (d.edges a).count b + if a = src ∧ b = dst then 1 else 0) ∧
    ∀ n, d'.inDegree n = d.inDegree n + if n = dst then 1 else 0

theorem edgeExact (d : DAG) (src dst : String) : EdgeExact d src dst where
  fails := addEdge_error_iff d src dst
  refused err h := by simp [call, h]
  accepted d' h := by simp [call, h]
  added d' h := by
    obtain ⟨_, _, _, _, hnodes, hcompleted, _, hinDegree⟩ := addEdge_ok h
    refine ⟨hnodes, hcompleted, count_addEdge h, ?_⟩
    intro n
    rw [hinDegree, Function.update_apply]
    split_ifs with hn
    · rw [hn]
    · simp

/-- The search of `reachable` ends within its fuel, whatever the graph. -/
theorem search_ends (d : DAG) (start target : String) :
    ∃ found, search d.edges target d.searchFuel [] [start] = some found :=
  search_isSome target (fun _ ha => d.edges_outside ha) (by simp [searchFuel])

/-- Whatever the calls were, the graph has no cycle, `reachable` ends and decides whether there is a
path, and `AddEdge` refuses exactly the edges that have no business in the graph: a refused edge
changes nothing, an accepted one is the only change. -/
theorem addEdge_exact (calls : List Call) :
    ∃ d, run call .new calls = some d ∧ Acyclic d.Edge ∧
      (∀ start target, (∃ found, search d.edges target d.searchFuel [] [start] = some found) ∧
        (d.reachable start target = true ↔ ReflTransGen d.Edge start target)) ∧
      ∀ src dst, EdgeExact d src dst := by
  obtain ⟨d, hd⟩ := run_call_isSome .new calls
  have acyclic : Acyclic d.Edge :=
    run_invariant (fun d : DAG => Acyclic d.Edge) (fun _ _ _ hd hs => acyclic_call hd hs) hd
      acyclic_new
  exact ⟨d, hd, acyclic, fun start target => ⟨d.search_ends start target, d.reachable_iff ..⟩,
    d.edgeExact⟩

/-! ## Graphs with cycles

No sequence of calls gets there, but a value of the type can have any edges between its nodes. -/

/-- `Validate` decides acyclicity. On every graph with nodes, whatever its edges and whatever order
the node map is iterated in, the search ends, with a depth of at most the number of nodes. The graph
is accepted exactly when it has no cycle; the error names a node on one. -/
theorem validate_ok_iff_acyclic (d : DAG) (nonempty : d.nodes ≠ []) (order : List String)
    (iterated : order.Perm d.nodes) :
    (∀ fuel, d.nodes.length ≤ fuel → exploreAll d.edges fuel order ≠ .error .fuel) ∧
    (d.validate order = .ok () ↔ Acyclic d.Edge) ∧
    ∀ err, d.validate order = .error err →
      ∃ id, err = .cycleDetected id ∧ TransGen d.Edge id id := by
  have all : ∀ id, id ∈ order ↔ id ∈ d.nodes := fun id => iterated.mem_iff
  refine ⟨fun fuel enough => (exploreAll_edges all enough).1, ?_⟩
  obtain ⟨hok, acyclic⟩ | ⟨id, herr, cycle⟩ := validate_cases all nonempty
  · rw [hok]
    exact ⟨by simp [acyclic], by simp⟩
  · rw [herr]
    refine ⟨⟨by simp, fun acyclic => absurd cycle (acyclic id)⟩, ?_⟩
    rintro err herr
    cases herr
    exact ⟨id, rfl, cycle⟩

/-- A double edge, a self-loop and a cycle of two nodes. -/
def tangled : DAG where
  nodes := ["a", "b", "c"]
  edges id := if id = "a" then ["b", "b", "c"] else if id = "b" then ["b"]
    else if id = "c" then ["a"] else []
  inDegree _ := 0
  completed := []
  nodes_nodup := by decide
  completed_nodup := List.nodup_nil
  edges_mem a b hb := by
    split_ifs at hb <;> simp_all

theorem validate_ok_iff_acyclic_tangled :
    ¬ Acyclic tangled.Edge ∧
      ∃ id, tangled.validate ["c", "a", "b"] = .error (.cycleDetected id) := by
  have refused : (tangled.validate ["c", "a", "b"]).toOption = none := by decide
  obtain ⟨_, accepts, names⟩ :=
    validate_ok_iff_acyclic tangled (by decide) ["c", "a", "b"] (by decide)
  cases h : tangled.validate ["c", "a", "b"] with
  | ok u =>
    rw [h] at refused
    cases refused
  | error err =>
    obtain ⟨id, rfl, _⟩ := names err h
    exact ⟨fun acyclic => by simp [accepts.mpr acyclic] at h, id, rfl⟩

end Daedalus.Scheduler.DAG
