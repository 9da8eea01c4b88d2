import Daedalus.Scheduler.Graph

/-!
# What `Complete` reports

`Complete` goes through the successors edge by edge and reports a node when its counter reaches
zero. A node with several edges must be reported at the last of them only. That is so because a
counter is never less than the number of unmet edges (`Covered`); it may be more, once an edge from
a completed node was added.
-/
namespace Daedalus.Scheduler.DAG

open Foundation

/-! ## The loop over the successors -/

/-- The counters and the list after the loop has gone through `past`. -/
structure Released (completed : List String) (inDegree : String → ℤ) (past : List String)
    (acc : (String → ℤ) × List String) : Prop where
  counters : ∀ n, acc.1 n = inDegree n - past.count n
  nodup : acc.2.Nodup
  reported : ∀ n, n ∈ acc.2 ↔ n ∈ past ∧ n ∉ completed ∧ inDegree n = past.count n

/-- One edge. Its target has not been reported yet, since the counter still covers this edge. -/
theorem Released.release {completed : List String} {inDegree : String → ℤ} {past : List String}
    {acc : (String → ℤ) × List String} {succ : String} (h : Released completed inDegree past acc)
    (covered : past.count succ + 1 ≤ inDegree succ) :
    Released completed inDegree (past ++ [succ]) (release completed acc succ) := by
  have fresh : succ ∉ acc.2 := by
    intro hmem
    obtain ⟨_, _, hzero⟩ := (h.reported succ).mp hmem
    omega
  refine ⟨?_, ?_, ?_⟩
  · intro n
    rw [release_counter, h.counters, List.count_append, List.count_singleton]
    simp only [beq_iff_eq, Nat.cast_add, Nat.cast_ite, Nat.cast_one, Nat.cast_zero]
    ring
  · simp only [DAG.release]
    split_ifs
    · exact h.nodup.append (List.nodup_singleton succ) (by simpa using fresh)
    · exact h.nodup
  · intro n
    rw [mem_release, h.reported, h.counters]
    by_cases hn : n = succ
    · subst hn
      simp only [List.mem_append, List.mem_singleton, List.count_append, List.count_singleton_self]
      grind
    · simp [hn, List.count_append, Ne.symm hn]

/-- Every unmet edge is counted, so the loop ends with the list of the nodes whose counter is used
up. -/
theorem released {completed succs : List String} {inDegree : String → ℤ}
    (covered : ∀ n, succs.count n ≤ inDegree n) :
    Released completed inDegree succs (succs.foldl (release completed) (inDegree, [])) := by
  apply foldl_history (Released completed inDegree)
  · intro past succ rest acc split h
    apply h.release
    have := covered succ
    rw [← split, List.count_append, List.count_cons_self] at this
    omega
  · exact ⟨by simp, List.nodup_nil, by simp⟩

/-! ## Calls -/

/-- No unmet edge is missing from the counters. -/
def Covered (d : DAG) : Prop := ∀ n, d.unmet n ≤ d.inDegree n

theorem Covered.new : Covered .new := by
  intro n
  simp [DAG.new, unmet]

/-- Whatever the method and its arguments: an edge from a completed node only adds to a counter, and
a completion takes off the edges that are no longer unmet. -/
theorem Covered.call {d d' : DAG} {c : Call} (h : Covered d) (hs : d.call c = some d') :
    Covered d' := by
  intro n
  have hn := h n
  cases c with
  | addNode id =>
    cases hs
    rwa [unmet_addNode, addNode_inDegree]
  | addEdge src dst =>
    simp only [DAG.call] at hs
    split at hs
    · cases hs
      exact hn
    · rename_i hok
      cases hs
      obtain ⟨_, _, _, _, _, _, _, hinDegree⟩ := addEdge_ok hok
      rw [unmet_addEdge hok, hinDegree, Function.update_apply]
      grind
  | complete id =>
    cases hs
    by_cases hc : id ∈ d.completed
    · simpa [DAG.complete, hc] using hn
    · have := unmet_complete hc n
      rw [complete_inDegree hc]
      omega

/-- What a caller of `Complete(id)` may rely on. -/
structure NewlyReady (d : DAG) (id : String) : Prop where
  nodup : (d.complete id).2.Nodup
  disjoint : (d.complete id).2.Disjoint d.ready
  ready : (d.complete id).1.ready.toFinset =
    d.ready.toFinset.erase id ∪ (d.complete id).2.toFinset

/-- The report of a first completion: the targets of edges whose counter had no other edge left. -/
theorem Covered.mem_report {d : DAG} (h : Covered d) {id : String} (hc : id ∉ d.completed) :
    (d.complete id).2.Nodup ∧ ∀ n, n ∈ (d.complete id).2 ↔
      n ∈ d.edges id ∧ n ∉ id :: d.completed ∧ d.inDegree n = (d.edges id).count n := by
  have covered : ∀ n, (d.edges id).count n ≤ d.inDegree n := by
    intro n
    have := unmet_complete hc n
    have := h n
    omega
  have loop : Released (id :: d.completed) d.inDegree (d.edges id) _ := released covered
  obtain ⟨_, nodup, reported⟩ := loop
  simp only [DAG.complete, hc, dite_false]
  exact ⟨nodup, reported⟩

theorem Covered.newlyReady {d : DAG} (h : Covered d) (id : String) : NewlyReady d id := by
  by_cases hc : id ∈ d.completed
  · have same : d.complete id = (d, []) := by simp [DAG.complete, hc]
    have unready : id ∉ d.ready.toFinset := by simp [mem_ready, hc]
    exact ⟨by simp [same], by simp [same], by simp [same, Finset.erase_eq_of_notMem unready]⟩
  · obtain ⟨nodup, reported⟩ := h.mem_report hc
    refine ⟨nodup, ?_, ?_⟩
    · intro n hn hready
      obtain ⟨edge, _, used⟩ := (reported n).mp hn
      have positive := List.count_pos_iff.mpr edge
      have zero := (mem_ready.mp hready).2.2
      omega
    · ext n
      simp only [List.mem_toFinset, Finset.mem_union, Finset.mem_erase, mem_ready, complete_nodes,
        mem_complete_completed, complete_inDegree hc, reported, List.mem_cons, not_or]
      by_cases edge : n ∈ d.edges id
      · have hnode := (d.edges_mem id n edge).2
        have positive := List.count_pos_iff.mpr edge
        constructor
        · rintro ⟨_, unfinished, zero⟩
          exact .inr ⟨edge, unfinished, by omega⟩
        · rintro (⟨_, _, _, zero⟩ | ⟨_, unfinished, used⟩)
          · have := h n
            have := unmet_complete hc n
            omega
          · exact ⟨hnode, unfinished, by omega⟩
      · simp only [edge, false_and, or_false, List.count_eq_zero_of_not_mem edge, Nat.cast_zero,
          sub_zero]
        tauto

/-- Whatever the calls were, with double edges, edges from completed nodes and completions out of
order among them: `Complete(id)` returns no node twice and none that was ready before, and what is
ready afterwards is what was ready before, without `id`, and the list. -/
theorem complete_reports_newly_ready (calls : List Call) :
    ∃ d, run call .new calls = some d ∧ ∀ id, NewlyReady d id := by
  obtain ⟨d, hd⟩ := run_call_isSome .new calls
  have covered : Covered d :=
    run_invariant Covered (fun _ _ _ hd hs => hd.call hs) hd .new
  exact ⟨d, hd, covered.newlyReady⟩

/-- Two edges from `b` to `d`, and `c` is completed before its predecessor. -/
example : (run call .new [.addNode "b", .addNode "c", .addNode "d", .addEdge "b" "d",
    .addEdge "b" "c", .addEdge "b" "d", .complete "c"]).map
      (fun d => (d.ready, (d.complete "b").2)) =
    some (["b"], ["d"]) := by decide

end Daedalus.Scheduler.DAG
