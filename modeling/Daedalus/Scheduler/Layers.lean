import Daedalus.Scheduler.Accounting

/-!
# Waves are the layers of the dependency graph

A wave takes every task whose dependencies have completed, and a round that only skips does not
count as a wave. So a task that is dispatched at all is dispatched right after the wave of its last
dependency: its batch is the length of the longest chain of dependencies that ends in it, whatever
happens to the other tasks.
-/
namespace Daedalus.Scheduler

open Foundation

variable {req : ScheduleRequest} {allowed : String → String → Prop} {s t u : State}

/-- The pairs of a task and a task that depends on it. -/
def ScheduleRequest.depends (req : ScheduleRequest) : SetRel String String :=
  {pair | pair.1 ∈ req.deps pair.2}

/-- The longest chain of dependencies that ends in the task has `n` steps. -/
def ScheduleRequest.Depth (req : ScheduleRequest) (id : String) (n : ℕ) : Prop :=
  IsGreatest (chainLengths req.depends id) n

/-- The batches are layers, and a task that could run but is not out waited for a task of the latest
batch. -/
structure Layered (req : ScheduleRequest) (s : State) : Prop where
  depth : ∀ i id, s.InBatch i id → req.Depth id i
  sorted : ∀ batch ∈ s.executionOrder, batch ≠ [] ∧ batch.Pairwise (· < ·)
  latest : ∀ id, Runnable req s id → id ∈ s.pc.active ∨ s.executionOrder = [] ∨
    ∃ a ∈ req.deps id, s.InBatch (s.executionOrder.length - 1) a

theorem Layered.start (d : DAG) : Layered req (start d) := by
  constructor <;> simp [Scheduler.start, State.InBatch]

theorem State.InBatch.lt_length {i : ℕ} {id : String} (h : s.InBatch i id) :
    i < s.executionOrder.length := by
  obtain ⟨batch, hbatch, _⟩ := h
  exact (List.getElem?_eq_some_iff.mp hbatch).1

/-- A completed task ran in a batch. -/
theorem Placed.completed_inBatch (h : Placed req s) {id : String} (hc : s.Completed id) :
    ∃ i, s.InBatch i id := by
  obtain ⟨o, ho, hcompleted⟩ := hc
  obtain ⟨_, ⟨i, _, hi⟩ | ⟨_, hskipped, _⟩⟩ := h.explained id o ho
  · exact ⟨i, hi⟩
  · simp [hcompleted] at hskipped

/-- Only a received result completes a task. -/
theorem Recorded.of_completed {id status : String} {a : Act} (h : Recorded s id a status)
    (hcompleted : status = "completed") : id ∈ s.pc.active := by
  cases h with
  | skipped => simp at hcompleted
  | dispatchFailed => simp at hcompleted
  | received hpc => simp [hpc, PC.active]
  | swept => simp at hcompleted

/-- A task that can run after a step could run before, or waited for a task that was out. -/
theorem runnable_step (running : Running req allowed s) (running' : Running req allowed t) {a : Act}
    (hs : step req s a = some t) {id : String} (h : Runnable req t id) :
    Runnable req s id ∨ ∃ dep ∈ req.deps id, dep ∈ s.pc.active := by
  by_cases done : ∀ dep ∈ req.deps id, s.Completed dep
  · refine .inl ⟨h.known, fun hc => h.unfinished ?_, done⟩
    obtain ⟨o, ho⟩ := Option.isSome_iff_exists.mp ((running.core.recorded id).mpr hc)
    rw [← running'.core.recorded, outcome_kept running hs ho]
    rfl
  · push Not at done
    obtain ⟨dep, hdep, hnew⟩ := done
    obtain ⟨o, ho, hcompleted⟩ := h.deps dep hdep
    refine .inr ⟨dep, hdep, ?_⟩
    rcases step_recorded running hs dep with same | ⟨_, o', ho', recorded⟩
    · exact absurd ⟨o, same ▸ ho, hcompleted⟩ hnew
    · obtain rfl := Option.some.inj (ho.symm.trans ho')
      exact recorded.of_completed hcompleted

/-- A step that starts no wave. -/
theorem Layered.keeps (h : Layered req s) (placed : Placed req s) (running : Running req allowed s)
    (running' : Running req allowed t) {a : Act} (hs : step req s a = some t)
    (order : t.executionOrder = s.executionOrder) : Layered req t := by
  have batches : ∀ i id, t.InBatch i id ↔ s.InBatch i id := by simp [State.InBatch, order]
  refine ⟨fun i id hi => h.depth i id ((batches i id).mp hi), order ▸ h.sorted, ?_⟩
  intro id hrun
  simp only [order, batches]
  rcases runnable_step running running' hs hrun with before | ⟨dep, hdep, hactive⟩
  · refine (h.latest id before).imp_left fun hactive => ?_
    exact (running.step_keeps hs (.inr hactive)).resolve_left hrun.unfinished
  · -- The dependency is out, so the latest batch is the current one.
    have current := placed.active dep hactive
    have waves := placed.waves
    have := current.lt_length
    have inWave : s.pc.inWave ≤ 1 := by
      unfold PC.inWave
      split <;> omega
    have last : s.executionOrder.length - 1 = s.batchNum := by omega
    exact .inr (.inr ⟨dep, hdep, last ▸ current⟩)

/-- The depth of a task that can run between two waves. -/
theorem Layered.depth_runnable (h : Layered req s) (placed : Placed req s) (hpc : s.pc = .head)
    {id : String} (hrun : Runnable req s id) : req.Depth id s.executionOrder.length := by
  have inBatch : ∀ a, (a, id) ∈ req.depends → ∃ i, s.InBatch i a := fun a ha =>
    placed.completed_inBatch (hrun.deps a ha)
  rcases h.latest id hrun with hactive | hempty | ⟨a, ha, hlast⟩
  · simp [hpc, PC.active] at hactive
  · rw [hempty]
    refine isGreatest_chainLengths_zero fun a ha => ?_
    obtain ⟨i, hi⟩ := inBatch a ha
    have := hi.lt_length
    simp [hempty] at this
  · have pos : s.executionOrder.length = s.executionOrder.length - 1 + 1 := by
      have := hlast.lt_length
      omega
    rw [pos]
    refine isGreatest_chainLengths_succ ha (h.depth _ a hlast) fun b hb => ?_
    obtain ⟨i, hi⟩ := inBatch b hb
    have := hi.lt_length
    exact ⟨i, by omega, h.depth i b hi⟩

/-- A round starts the next layer, or none. -/
theorem Layered.round (h : Layered req s) (placed : Placed req s) (running : Running req allowed s)
    (running' : Running req allowed (round s)) (hpc : s.pc = .head)
    (hs : step req s .round = some (round s)) : Layered req (round s) := by
  obtain ⟨u, settled, _, ends⟩ := round_cases_skips running.core
  have order : u.executionOrder = s.executionOrder := by rw [settled.frame]
  rcases ends with ⟨e, _⟩ | ⟨e, _⟩ | ⟨wave, _, hwave, hne, _, _, _, e⟩
  · exact h.keeps placed running running' hs (by rw [e]; exact order)
  · exact h.keeps placed running running' hs (by rw [e]; exact order)
  have hrunnable : ∀ id, id ∈ wave ↔ Runnable req s id := fun id =>
    hwave ▸ running.core.runnable_iff
  have hsorted : wave.Pairwise (· < ·) := hwave ▸ s.d.ready_sorted.filter _
  have before : ∀ id, Runnable req (Scheduler.round s) id → Runnable req s id := by
    intro id hrun
    rcases runnable_step running running' hs hrun with before | ⟨dep, _, hactive⟩
    · exact before
    · simp [hpc, PC.active] at hactive
  have horder : (Scheduler.round s).executionOrder = s.executionOrder ++ [wave] := by
    rw [e, ← order]
  refine ⟨?_, ?_, ?_⟩
  · rintro i id ⟨batch, hbatch, hid⟩
    rw [horder] at hbatch
    rcases lt_or_ge i s.executionOrder.length with hlt | hge
    · rw [List.getElem?_append_left hlt] at hbatch
      exact h.depth i id ⟨batch, hbatch, hid⟩
    · have hi : i = s.executionOrder.length := by
        have := (List.getElem?_eq_some_iff.mp hbatch).1
        simp at this
        omega
      subst hi
      rw [List.getElem?_concat_length] at hbatch
      obtain rfl := Option.some.inj hbatch
      exact h.depth_runnable placed hpc ((hrunnable id).mp hid)
  · intro batch hbatch
    rw [horder] at hbatch
    rcases List.mem_append.mp hbatch with hold | hnew
    · exact h.sorted batch hold
    · obtain rfl := List.mem_singleton.mp hnew
      exact ⟨hne, hsorted⟩
  · intro id hrun
    refine .inl ?_
    rw [e]
    exact (hrunnable id).mpr (before id hrun)

theorem Layered.step (h : Layered req s) (placed : Placed req s) (running : Running req allowed s)
    (running' : Running req allowed t) {a : Act} (hs : step req s a = some t) : Layered req t := by
  obtain ⟨_, rfl, _, _, rfl⟩ | ⟨rfl, hpc, rfl⟩ | ⟨_, _, _, rfl, _, _, _, rfl⟩ |
    ⟨_, _, _, _, rfl, _, _, _, rfl⟩ | ⟨wave, slots, rfl, hpc, returned, rfl⟩ |
    ⟨_, _, _, _, _, rfl, _, _, rfl⟩ | ⟨_, wr, _, rfl, _, rfl⟩ | ⟨rfl, _, rfl⟩ | ⟨rfl, _, rfl⟩ :=
    step_cases hs
  · exact h.keeps placed running running' hs rfl
  · exact h.round placed running running' hpc hs
  · exact h.keeps placed running running' hs rfl
  · exact h.keeps placed running running' hs rfl
  · exact h.keeps placed running running' hs (by rw [(running.spawned hpc returned).frame])
  · exact h.keeps placed running running' hs rfl
  · obtain ⟨error, e⟩ := collect_eq_settle s wr
    exact h.keeps placed running running' hs (by rw [e]; rfl)
  · exact h.keeps placed running running' hs rfl
  · exact h.keeps placed running running' hs rfl

/-! ## Runs -/

/-- The batches of a call that called `Dispatch` for `calls`: each task is in the batch of its
depth, which its outcome names, and the batches are sorted, not empty and disjoint. -/
structure InLayers (req : ScheduleRequest) (calls : List String) (s : State) : Prop where
  dispatched : ∀ id ∈ calls, ∃ i, s.InBatch i id
  depth : ∀ i id, s.InBatch i id → req.Depth id i
  outcome : ∀ i id o, s.InBatch i id → s.outcomes id = some o → o.batch = i
  sorted : ∀ batch ∈ s.executionOrder, batch ≠ [] ∧ batch.Pairwise (· < ·)
  disjoint : s.executionOrder.Pairwise List.Disjoint

theorem inLayers {order : req.MapOrder} {d : DAG} (valid : req.validate order = .ok d)
    {acts : List Act} (h : run (step req) (start d) acts = some s) :
    InLayers req (acts.filterMap Act.dispatched) s := by
  have books := ledger_invariant valid (Layered req) (.start d)
    (fun _ _ _ _ booked booked' layered hs _ =>
      layered.step booked.placed booked.running booked'.running hs) h
  obtain ⟨booked, layered, _⟩ | ⟨u, booked, layered, hpc, rfl⟩ := books
  · exact ⟨booked.tallied.batched, layered.depth, fun i id o hi ho => booked.placed.batch_eq ho hi,
      layered.sorted, (List.nodup_flatten.mp booked.placed.once).2⟩
  · exact ⟨booked.tallied.batched, layered.depth,
      fun i id o hi ho => (booked.accounted hpc).batch id o i ho hi,
      layered.sorted, (List.nodup_flatten.mp booked.placed.once).2⟩

/-- Waves are the longest-chain layers. In every run of a valid request, whatever `Dispatch` and
`WaitFor` answer, each dispatched task is in the batch whose number is the length of the longest
chain of dependencies that ends in the task, and its outcome has that number; the batches are
sorted, not empty and disjoint. When the call has returned, every dispatched task has an outcome.
Two runs of the request never put a task into different batches. -/
theorem waves_are_layers {order : req.MapOrder} {d : DAG} (valid : req.validate order = .ok d)
    {acts : List Act} (h : run (step req) (start d) acts = some s) :
    InLayers req (acts.filterMap Act.dispatched) s ∧
      (∀ err, s.pc = .returned err → ∀ id ∈ acts.filterMap Act.dispatched,
        ∃ o, s.outcomes id = some o ∧ ∃ n : ℕ, o.batch = n ∧ req.Depth id n) ∧
      ∀ (order' : req.MapOrder) (d' : DAG) (acts' : List Act) (s' : State),
        req.validate order' = .ok d' → run (step req) (start d') acts' = some s' →
        ∀ i j id, s.InBatch i id → s'.InBatch j id → i = j := by
  have layers := inLayers valid h
  refine ⟨layers, ?_, ?_⟩
  · intro err hpc id hid
    obtain ⟨_, live⟩ | ⟨u, booked, hexit, rfl⟩ := ledger valid h
    · exact absurd hpc (live err)
    obtain ⟨i, hi⟩ := layers.dispatched id hid
    have recorded := booked.placed.placed i id hi
    simp only [hexit, PC.active, List.not_mem_nil, false_or] at recorded
    obtain ⟨o, ho⟩ := Option.isSome_iff_exists.mp recorded
    have ho' : fillCanceled req.ids u.outcomes id = some o := by simp [fillCanceled, ho]
    exact ⟨o, ho', i, layers.outcome i id o hi ho', layers.depth i id hi⟩
  · intro order' d' acts' s' valid' h' i j id hi hj
    have layers' := inLayers valid' h'
    exact (layers.depth i id hi).unique (layers'.depth j id hj)

/-- The first branch fails, so that the end of it is skipped while the other branch runs on. -/
def chainFailing : List Act := [
  .round, .callDispatch "a", .dispatchReturns "a" (.ok "a"), .spawnWaits,
  .waitReturns "a" (.ok { taskID := "a", status := .completed }), .receive, .endWave, .round,
  .callDispatch "d", .callDispatch "b", .dispatchReturns "b" (.error (.new "no agent")),
  .dispatchReturns "d" (.ok "d"), .spawnWaits,
  .waitReturns "d" (.ok { taskID := "d", status := .completed }), .receive, .endWave, .round,
  .callDispatch "e", .dispatchReturns "e" (.ok "e"), .spawnWaits,
  .waitReturns "e" (.ok { taskID := "e", status := .completed }), .receive, .endWave, .round,
  .ret]

theorem waves_are_layers_chain :
    ∃ d s, chain.validate chainOrder = .ok d ∧
      run (step chain) (start d) chainFailing = some s ∧
      s.executionOrder = [["a"], ["b", "d"], ["e"]] ∧ s.pc = .returned none ∧
      InLayers chain ["a", "d", "b", "e"] s ∧ chain.Depth "e" 2 := by
  have values : ((chain.validate chainOrder).toOption.bind fun d =>
      (run (step chain) (start d) chainFailing).bind fun s =>
        s.pc.result.map fun err => (err, s.executionOrder)) =
      some (none, [["a"], ["b", "d"], ["e"]]) := by
    decide
  obtain ⟨d, hd, h⟩ := Option.bind_eq_some_iff.mp values
  obtain ⟨s, hs, h⟩ := Option.bind_eq_some_iff.mp h
  obtain ⟨err, herr, h⟩ := Option.map_eq_some_iff.mp h
  obtain ⟨rfl, order⟩ : err = none ∧ s.executionOrder = [["a"], ["b", "d"], ["e"]] := by
    simpa using h
  have valid := toOption_eq_some.mp hd
  have layers := (waves_are_layers valid hs).1
  exact ⟨d, s, valid, hs, order, PC.result_eq_some.mp herr, layers,
    layers.depth 2 "e" ⟨["e"], by rw [order]; rfl, by simp⟩⟩

end Daedalus.Scheduler
