import Daedalus.Scheduler.Outcome

/-!
# Every task of a cancelled call is accounted for

A call may be cancelled at any moment. Whatever happens, the tasks are divided into those of a wave
that was started and those of no wave. A task of a wave is out until it gets an outcome that carries
the number of the wave; a task of no wave is skipped, or has no outcome until the final sweep. The
loop is left early only when the context was seen cancelled.
-/
namespace Daedalus.Scheduler

open Foundation A2A Orchestrator

variable {req : ScheduleRequest} {allowed : String → String → Prop} {s t u : State}

/-- The task is in the batch with the given number. -/
def State.InBatch (s : State) (i : ℕ) (id : String) : Prop :=
  ∃ batch, s.executionOrder[i]? = some batch ∧ id ∈ batch

/-- The number of waves that were started and have not ended. -/
def PC.inWave : PC → ℕ
  | .dispatching _ _ => 1
  | .waiting _ _ => 1
  | _ => 0

/-- Where the outcome of a task comes from. -/
structure Explained (req : ScheduleRequest) (s : State) (id : String) (o : TaskOutcome) : Prop where
  taskID : o.taskID = id
  origin : (∃ i : ℕ, o.batch = i ∧ s.InBatch i id) ∨
    (∀ i, ¬ s.InBatch i id) ∧ o.status = "skipped" ∧ ∃ a ∈ req.deps id, s.Failed a

/-- The batches and the outcomes agree. -/
structure Placed (req : ScheduleRequest) (s : State) : Prop where
  waves : s.executionOrder.length = s.batchNum + s.pc.inWave
  once : s.executionOrder.flatten.Nodup
  active : ∀ id ∈ s.pc.active, s.InBatch s.batchNum id
  placed : ∀ i id, s.InBatch i id → id ∈ s.pc.active ∨ (s.outcomes id).isSome
  explained : ∀ id o, s.outcomes id = some o → Explained req s id o
  /-- The loop is left when nothing remains or the context was seen cancelled. -/
  left : s.pc.pastLoop → s.d.remaining ≤ 0 ∨ s.ctxErr.isSome

theorem Placed.start (d : DAG) : Placed req (start d) where
  waves := rfl
  once := List.nodup_nil
  active := by simp [Scheduler.start, PC.active]
  placed := by simp [State.InBatch, Scheduler.start]
  explained := by simp [Scheduler.start]
  left := by simp [Scheduler.start, PC.pastLoop]

/-- A task is in one batch only. -/
theorem Placed.unique (h : Placed req s) {i j : ℕ} {id : String} (hi : s.InBatch i id)
    (hj : s.InBatch j id) : i = j := by
  have disjoint := List.pairwise_iff_getElem.mp (List.nodup_flatten.mp h.once).2
  have apart : ∀ i j, i < j → s.InBatch i id → ¬ s.InBatch j id := by
    rintro i j hlt ⟨batch, hbatch, hid⟩ ⟨batch', hbatch', hid'⟩
    obtain ⟨hi, rfl⟩ := List.getElem?_eq_some_iff.mp hbatch
    obtain ⟨hj, rfl⟩ := List.getElem?_eq_some_iff.mp hbatch'
    exact disjoint i j hi hj hlt hid hid'
  rcases lt_trichotomy i j with hlt | heq | hlt
  · exact absurd hj (apart i j hlt hi)
  · exact heq
  · exact absurd hi (apart j i hlt hj)

/-- The outcome of a task of a batch names the batch. -/
theorem Placed.batch_eq (h : Placed req s) {i : ℕ} {id : String} {o : TaskOutcome}
    (ho : s.outcomes id = some o) (hi : s.InBatch i id) : o.batch = i := by
  obtain ⟨_, ⟨j, hj, hbatch⟩ | ⟨hno, _⟩⟩ := h.explained id o ho
  · rw [hj, h.unique hbatch hi]
  · exact absurd hi (hno i)

/-! ## Steps that record outcomes -/

/-- Outcomes were added, each with an explanation, and the batches are as they were. -/
structure Grows (req : ScheduleRequest) (s u : State) : Prop where
  order : u.executionOrder = s.executionOrder
  batch : u.batchNum = s.batchNum
  kept : ∀ id o, s.outcomes id = some o → u.outcomes id = some o
  new : ∀ id o, u.outcomes id = some o → s.outcomes id = some o ∨ Explained req s id o

theorem Grows.of_eq (order : u.executionOrder = s.executionOrder) (batch : u.batchNum = s.batchNum)
    (outcomes : u.outcomes = s.outcomes) : Grows req s u :=
  ⟨order, batch, fun _ _ ho => outcomes ▸ ho, fun _ _ ho => .inl (outcomes ▸ ho)⟩

theorem Explained.mono {id : String} {o : TaskOutcome} (h : Explained req s id o)
    (batches : ∀ i, u.InBatch i id ↔ s.InBatch i id)
    (kept : ∀ id o, s.outcomes id = some o → u.outcomes id = some o) : Explained req u id o := by
  obtain ⟨taskID, ⟨i, hi, hbatch⟩ | ⟨hnone, hskipped, a, ha, o', ho', hne⟩⟩ := h
  · exact ⟨taskID, .inl ⟨i, hi, (batches i).mpr hbatch⟩⟩
  · exact ⟨taskID, .inr ⟨fun i hi => hnone i ((batches i).mp hi), hskipped,
      a, ha, o', kept a o' ho', hne⟩⟩

/-- What the main goroutine records inside a wave, or between two, keeps batches and outcomes in
agreement. -/
theorem Placed.grow (h : Placed req s) (g : Grows req s u) (wave : u.pc.inWave = s.pc.inWave)
    (active : ∀ id ∈ u.pc.active, id ∈ s.pc.active)
    (out : ∀ id ∈ s.pc.active, id ∈ u.pc.active ∨ (u.outcomes id).isSome)
    (left : u.pc.pastLoop → u.d.remaining ≤ 0 ∨ u.ctxErr.isSome) : Placed req u := by
  have batches : ∀ i id, u.InBatch i id ↔ s.InBatch i id := by
    simp [State.InBatch, g.order]
  refine ⟨?_, ?_, ?_, ?_, ?_, left⟩
  · rw [g.order, g.batch, wave, h.waves]
  · rw [g.order]
    exact h.once
  · intro id hid
    rw [batches, g.batch]
    exact h.active id (active id hid)
  · intro i id hid
    rcases h.placed i id ((batches i id).mp hid) with hactive | hdone
    · exact out id hactive
    · obtain ⟨o, ho⟩ := Option.isSome_iff_exists.mp hdone
      exact .inr (by rw [g.kept id o ho]; rfl)
  · intro id o ho
    rcases g.new id o ho with hold | hnew
    · exact (h.explained id o hold).mono (fun i => batches i id) g.kept
    · exact hnew.mono (fun i => batches i id) g.kept

/-- A task that gets its outcome in a wave. -/
theorem Placed.explain_active (h : Placed req s) {id : String} (hid : id ∈ s.pc.active)
    (status : String) (error : Option GoError) :
    Explained req s id { taskID := id, status, error, batch := s.batchNum } :=
  ⟨rfl, .inl ⟨s.batchNum, rfl, h.active id hid⟩⟩

/-- The tasks a round skips belong to no batch. -/
theorem Placed.skips (h : Placed req s) (core : Core req allowed s) (hpc : s.pc = .head)
    (settled : Settled req allowed s u) (hskips : Skips s u) : Grows req s u := by
  have fresh : ∀ a ∈ s.d.ready, s.outcomes a = none := fun a ha =>
    core.outcomes_eq_none (core.tracks.mem_ready.mp ha).2.1
  refine ⟨by rw [settled.frame], by rw [settled.frame], ?_, ?_⟩
  · intro id o ho
    rcases hskips id with same | ⟨hready, _, _⟩
    · rw [same, ho]
    · rw [fresh id hready] at ho
      cases ho
  · intro id o ho
    rcases hskips id with same | ⟨hready, hskip, hnew⟩
    · exact .inl (same ▸ ho)
    · rw [hnew] at ho
      cases ho
      refine .inr ⟨rfl, .inr ⟨?_, rfl, (core.skip id).mp hskip⟩⟩
      intro i hi
      have := h.placed i id hi
      simp [hpc, PC.active, fresh id hready] at this

/-- What `spawnWait` records: each failed dispatch of the wave, in the current batch. -/
theorem spawnWait_outcomes (s : State) (slots : String → Slot) (wave : List String) (a : String) :
    (∃ err, a ∈ wave ∧ slots a = .returned (.error err) ∧
      (wave.foldl (spawnWait slots) (s, [])).1.outcomes a =
        some { taskID := a, status := "failed", error := some err, batch := s.batchNum }) ∨
    (∀ err, a ∈ wave → slots a ≠ .returned (.error err)) ∧
      (wave.foldl (spawnWait slots) (s, [])).1.outcomes a = s.outcomes a := by
  have values : (wave.foldl (spawnWait slots) (s, [])).1.batchNum = s.batchNum ∧
      ((∃ err, a ∈ wave ∧ slots a = .returned (.error err) ∧
        (wave.foldl (spawnWait slots) (s, [])).1.outcomes a =
          some { taskID := a, status := "failed", error := some err, batch := s.batchNum }) ∨
      (∀ err, a ∈ wave → slots a ≠ .returned (.error err)) ∧
        (wave.foldl (spawnWait slots) (s, [])).1.outcomes a = s.outcomes a) := by
    refine foldl_history (fun past (acc : State × List (String × String)) =>
      acc.1.batchNum = s.batchNum ∧
        ((∃ err, a ∈ past ∧ slots a = .returned (.error err) ∧ acc.1.outcomes a =
          some { taskID := a, status := "failed", error := some err, batch := s.batchNum }) ∨
        (∀ err, a ∈ past → slots a ≠ .returned (.error err)) ∧ acc.1.outcomes a = s.outcomes a))
      ?_ ⟨rfl, .inr ⟨by simp, rfl⟩⟩
    rintro past id rest acc - ⟨hbatch, ih⟩
    unfold spawnWait
    split
    · refine ⟨hbatch, ?_⟩
      simp only [settle_outcomes, Function.update_apply, hbatch]
      grind
    all_goals
      refine ⟨hbatch, ?_⟩
      grind
  exact values.2

/-- What a step writes into the outcome of a task, and from where. -/
inductive Recorded (s : State) (id : String) : Act → String → Prop
  | skipped : Recorded s id .round "skipped"
  | dispatchFailed {wave : List String} {slots : String → Slot} {err : GoError}
      (hpc : s.pc = .dispatching wave slots) (hid : id ∈ wave)
      (hslot : slots id = .returned (.error err)) : Recorded s id .spawnWaits "failed"
  | received {pending : List (String × String)} {waitCh : List WaitResult}
      {result : Except GoError TaskResult}
      (hpc : s.pc = .waiting pending (⟨id, result⟩ :: waitCh)) :
      Recorded s id .receive (waitStatus result)
  | swept : Recorded s id .ret "canceled"

/-- A step leaves the outcome of a task alone or gives it its first one. -/
theorem step_recorded (running : Running req allowed s) {a : Act} (hs : step req s a = some t)
    (id : String) :
    t.outcomes id = s.outcomes id ∨
      s.outcomes id = none ∧ ∃ o, t.outcomes id = some o ∧ Recorded s id a o.status := by
  obtain ⟨err, rfl, _, _, rfl⟩ | ⟨rfl, hpc, rfl⟩ | ⟨_, wave, slots, rfl, hpc, _, _, rfl⟩ |
    ⟨_, result, wave, slots, rfl, hpc, _, _, rfl⟩ | ⟨wave, slots, rfl, hpc, returned, rfl⟩ |
    ⟨_, result, dispID, pending, waitCh, rfl, hpc, hmem, rfl⟩ |
    ⟨pending, wr, waitCh, rfl, hpc, rfl⟩ | ⟨rfl, hpc, rfl⟩ | ⟨rfl, hpc, rfl⟩ := step_cases hs
  · exact .inl rfl
  · obtain ⟨u, settled, hskips, ends⟩ := round_cases_skips running.core
    have same : (round s).outcomes = u.outcomes := by
      obtain ⟨e, _⟩ | ⟨e, _⟩ | ⟨wave, _, _, _, _, _, _, e⟩ := ends
      all_goals rw [e]
    rw [same]
    rcases hskips id with old | ⟨hready, _, hnew⟩
    · exact .inl old
    · have fresh := running.core.outcomes_eq_none (running.core.tracks.mem_ready.mp hready).2.1
      exact .inr ⟨fresh, _, hnew, .skipped⟩
  · exact .inl rfl
  · exact .inl rfl
  · rcases spawnWait_outcomes s slots wave id with ⟨err, hid, hslot, hnew⟩ | ⟨_, same⟩
    · have hrun := running.runnable id (by rw [hpc]; exact hid)
      exact .inr ⟨running.core.outcomes_eq_none hrun.unfinished, _, hnew,
        .dispatchFailed hpc hid hslot⟩
    · exact .inl same
  · exact .inl rfl
  · obtain ⟨error, e⟩ := collect_eq_settle s wr
    rw [e]
    by_cases hid : id = wr.specID
    · subst hid
      have hrun := running.runnable wr.specID (by simp [hpc, PC.active])
      exact .inr ⟨running.core.outcomes_eq_none hrun.unfinished, _, Function.update_self ..,
        .received hpc⟩
    · exact .inl (Function.update_of_ne hid ..)
  · exact .inl rfl
  · simp only [fillCanceled]
    cases ho : s.outcomes id with
    | some o => exact .inl rfl
    | none =>
      by_cases hid : id ∈ req.ids
      · exact .inr ⟨rfl, _, if_pos hid, .swept⟩
      · exact .inl (if_neg hid)

/-- An outcome is never replaced. -/
theorem outcome_kept (running : Running req allowed s) {a : Act} (hs : step req s a = some t)
    {id : String} {o : TaskOutcome} (ho : s.outcomes id = some o) : t.outcomes id = some o := by
  rcases step_recorded running hs id with same | ⟨hnone, _⟩
  · rw [same, ho]
  · rw [hnone] at ho
    cases ho

/-- The wave that starts takes tasks that no batch has yet. -/
theorem Placed.startWave (h : Placed req u) (core : Core req allowed u) (hpc : u.pc = .head)
    {wave : List String} (nodup : wave.Nodup) (runnable : ∀ id ∈ wave, Runnable req u id) :
    Placed req { u with
      executionOrder := u.executionOrder ++ [wave]
      pc := .dispatching wave fun _ => .spawned } := by
  have waves : u.executionOrder.length = u.batchNum := by simpa [hpc, PC.inWave] using h.waves
  have old : ∀ i id, u.InBatch i id → (u.outcomes id).isSome := by
    intro i id hid
    simpa [hpc, PC.active] using h.placed i id hid
  have fresh : ∀ i, ∀ id ∈ wave, ¬ u.InBatch i id := by
    intro i id hid hi
    exact (runnable id hid).unfinished ((core.recorded id).mp (old i id hi))
  set v : State := { u with
    executionOrder := u.executionOrder ++ [wave]
    pc := .dispatching wave fun _ => .spawned } with hv
  have batches : ∀ i id, v.InBatch i id ↔ u.InBatch i id ∨ i = u.batchNum ∧ id ∈ wave := by
    intro i id
    simp only [State.InBatch, hv]
    rcases lt_trichotomy i u.executionOrder.length with hlt | rfl | hgt
    · rw [List.getElem?_append_left hlt]
      have : i ≠ u.batchNum := by omega
      simp [this]
    · simp [waves]
    · have : i ≠ u.batchNum := by omega
      rw [List.getElem?_eq_none (by simp; omega), List.getElem?_eq_none (by omega)]
      simp [this]
  refine ⟨?_, ?_, ?_, ?_, ?_, by simp [hv, PC.pastLoop]⟩
  · simp [hv, PC.inWave, waves]
  · have : (u.executionOrder ++ [wave]).flatten.Nodup := by
      rw [List.flatten_append, List.flatten_singleton]
      refine h.once.append nodup ?_
      intro id hold hnew
      obtain ⟨batch, hbatch, hid⟩ := List.mem_flatten.mp hold
      obtain ⟨i, hi⟩ := List.mem_iff_getElem?.mp hbatch
      exact fresh i id hnew ⟨batch, hi, hid⟩
    exact this
  · intro id hid
    exact (batches _ id).mpr (.inr ⟨rfl, hid⟩)
  · intro i id hid
    rcases (batches i id).mp hid with hold | ⟨_, hnew⟩
    · exact .inr (old i id hold)
    · exact .inl hnew
  · intro id o ho
    have hout : id ∉ wave := by
      intro hid
      have recorded : (u.outcomes id).isSome := by
        rw [show u.outcomes id = _ from ho]
        rfl
      exact (runnable id hid).unfinished ((core.recorded id).mp recorded)
    refine (h.explained id o ho).mono (fun i => ?_) fun _ _ ho => ho
    rw [batches]
    simp [hout]

/-- A failed dispatch is recorded in the wave it was part of. -/
theorem Placed.spawnWaits (h : Placed req s) (running : Running req allowed s) {wave : List String}
    {slots : String → Slot} (hpc : s.pc = .dispatching wave slots)
    (returned : ∀ id ∈ wave, (slots id).isReturned) :
    Placed req { (wave.foldl (spawnWait slots) (s, [])).1 with
      pc := .waiting (wave.foldl (spawnWait slots) (s, [])).2 [] } := by
  have sp := running.spawned hpc returned
  have values := spawnWait_outcomes s slots wave
  generalize wave.foldl (spawnWait slots) (s, []) = acc at sp values ⊢
  have hactive : s.pc.active = wave := by
    rw [hpc]
    rfl
  have fresh : ∀ id ∈ wave, s.outcomes id = none := by
    intro id hid
    exact running.core.outcomes_eq_none (running.runnable id (hactive ▸ hid)).unfinished
  have order : acc.1.executionOrder = s.executionOrder := by rw [sp.frame]
  have batch : acc.1.batchNum = s.batchNum := by rw [sp.frame]
  refine h.grow ⟨order, batch, ?_, ?_⟩ (by simp [hpc, PC.inWave]) ?_ ?_
    (by simp [PC.pastLoop])
  · intro id o ho
    rcases values id with ⟨err, hid, _⟩ | ⟨_, same⟩
    · rw [fresh id hid] at ho
      cases ho
    · exact same.trans ho
  · intro id o ho
    rcases values id with ⟨err, hid, _, hnew⟩ | ⟨_, same⟩
    swap
    · exact .inl (same ▸ ho)
    · obtain rfl := Option.some.inj (hnew.symm.trans ho)
      exact .inr (h.explain_active (hactive ▸ hid) "failed" (some err))
  · intro id hid
    rw [hactive]
    apply sp.sublist.subset
    simpa [PC.active] using hid
  · intro id hid
    rw [hactive] at hid
    by_cases hpending : id ∈ acc.2.map Prod.fst
    · exact .inl (by simpa [PC.active] using hpending)
    · exact .inr ((sp.core.recorded id).mpr ((sp.done id).mpr (.inr ⟨hid, hpending⟩)))

/-- A result is recorded in the wave its task was part of. -/
theorem Placed.receive (h : Placed req s) (running : Running req allowed s)
    {pending : List (String × String)} {wr : WaitResult} {waitCh : List WaitResult}
    (hpc : s.pc = .waiting pending (wr :: waitCh)) :
    Placed req { collect s wr with pc := .waiting pending waitCh } := by
  have hwr : wr.specID ∈ s.pc.active := by simp [hpc, PC.active]
  have fresh := running.core.outcomes_eq_none (running.runnable wr.specID hwr).unfinished
  obtain ⟨error, e⟩ := collect_eq_settle s wr
  rw [e]
  refine h.grow ⟨rfl, rfl, ?_, ?_⟩ (by simp [hpc, PC.inWave]) ?_ ?_
    (by simp [PC.pastLoop])
  · intro id o ho
    have hne : id ≠ wr.specID := by
      rintro rfl
      rw [fresh] at ho
      cases ho
    simpa [hne] using ho
  · intro id o ho
    simp only [settle_outcomes, Function.update_apply] at ho
    split_ifs at ho with hid
    · cases ho
      subst hid
      exact .inr (h.explain_active hwr _ error)
    · exact .inl ho
  · intro id hid
    rw [hpc]
    simp only [PC.active, List.map_cons, List.mem_append, List.mem_cons] at hid ⊢
    tauto
  · intro id hid
    rw [hpc] at hid
    simp only [PC.active, List.map_cons, List.mem_append, List.mem_cons] at hid ⊢
    by_cases hne : id = wr.specID
    · exact .inr (by simp [hne])
    · exact .inl (by tauto)

/-- Every step of a running call keeps batches and outcomes in agreement. -/
theorem Placed.step (h : Placed req s) (valid : req.Valid) (running : Running req allowed s)
    {a : Act} (hs : step req s a = some t) (hret : a ≠ .ret) : Placed req t := by
  obtain ⟨err, rfl, _, _, rfl⟩ | ⟨rfl, hpc, rfl⟩ | ⟨id, wave, slots, rfl, hpc, _, _, rfl⟩ |
    ⟨id, result, wave, slots, rfl, hpc, _, _, rfl⟩ | ⟨wave, slots, rfl, hpc, returned, rfl⟩ |
    ⟨id, result, dispID, pending, waitCh, rfl, hpc, hmem, rfl⟩ |
    ⟨pending, wr, waitCh, rfl, hpc, rfl⟩ | ⟨rfl, hpc, rfl⟩ | ⟨rfl, hpc, rfl⟩ := step_cases hs
  · exact h.grow (.of_eq rfl rfl rfl) rfl (fun _ hid => hid) (fun _ hid => .inl hid)
      fun _ => .inr rfl
  · obtain ⟨u, settled, hskips, ⟨e, why⟩ | ⟨e, _⟩ | ⟨wave, _, _, _, nodup, runnable, _, e⟩⟩ :=
      round_cases_skips running.core
    all_goals
      have grows := h.skips running.core hpc settled hskips
      rw [e]
    · refine h.grow ⟨grows.order, grows.batch, grows.kept, grows.new⟩ (by simp [hpc, PC.inWave])
        (by simp [PC.active]) (by simp [hpc, PC.active]) fun _ => ?_
      rw [← settled.ctxErr_eq] at why
      obtain ⟨rfl, hr⟩ | ⟨hr, hready⟩ | hctx := why
      · exact .inl hr
      · exact absurd hready (running.core.tracks.ready_ne_nil valid hr)
      · exact .inr hctx
    · have hu : u.pc = .head := settled.pc_eq.trans hpc
      exact h.grow grows (by simp [hpc, hu]) (by simp [hu, PC.active]) (by simp [hpc, PC.active])
        (by simp [hu, PC.pastLoop])
    · have hu : u.pc = .head := settled.pc_eq.trans hpc
      have placed : Placed req u := h.grow grows (by simp [hpc, hu]) (by simp [hu, PC.active])
        (by simp [hpc, PC.active]) (by simp [hu, PC.pastLoop])
      exact placed.startWave settled.core hu nodup runnable
  · exact h.grow (.of_eq rfl rfl rfl) (by simp [hpc, PC.inWave]) (by simp [hpc, PC.active])
      (by simp [hpc, PC.active]; tauto) (by simp [PC.pastLoop])
  · exact h.grow (.of_eq rfl rfl rfl) (by simp [hpc, PC.inWave]) (by simp [hpc, PC.active])
      (by simp [hpc, PC.active]; tauto) (by simp [PC.pastLoop])
  · exact h.spawnWaits running hpc returned
  · have perm := Running.active_waitReturns hmem waitCh result
    refine h.grow (.of_eq rfl rfl rfl) (by simp [hpc, PC.inWave]) ?_ ?_ (by simp [PC.pastLoop])
    · intro a ha
      rw [hpc]
      exact perm.mem_iff.mp ha
    · intro a ha
      rw [hpc] at ha
      exact .inl (perm.mem_iff.mpr ha)
  · exact h.receive running hpc
  · have waves : s.executionOrder.length = s.batchNum + 1 := by
      simpa [hpc, PC.inWave] using h.waves
    have placed : ∀ i id, s.InBatch i id → (s.outcomes id).isSome := by
      intro i id hid
      simpa [hpc, PC.active] using h.placed i id hid
    refine ⟨by simpa [PC.inWave] using waves, h.once, by simp [PC.active],
      fun i id hid => .inr (placed i id hid), ?_, by simp [PC.pastLoop]⟩
    intro id o ho
    exact (h.explained id o ho).mono (fun _ => .rfl) fun _ _ ho => ho
  · exact absurd rfl hret

/-! ## Dispatched tasks and batches -/

/-- `Dispatch` was called for the tasks of the batches, except for those of the current wave whose
goroutines have not run yet. -/
structure Tallied (calls : List String) (s : State) : Prop where
  batched : ∀ id ∈ calls, ∃ i, s.InBatch i id
  called : ∀ i id, s.InBatch i id → id ∈ calls ∨
    ∃ wave slots, s.pc = .dispatching wave slots ∧ id ∈ wave ∧ slots id = .spawned

/-- Outside the dispatch phase the batches are the tasks that `Dispatch` was called for. -/
theorem Tallied.mem_iff {calls : List String} (h : Tallied calls s)
    (hpc : ∀ wave slots, s.pc ≠ .dispatching wave slots) (id : String) :
    id ∈ calls ↔ ∃ i, s.InBatch i id := by
  refine ⟨h.batched id, ?_⟩
  rintro ⟨i, hi⟩
  rcases h.called i id hi with hcalled | ⟨wave, slots, e, _⟩
  · exact hcalled
  · exact absurd e (hpc wave slots)

theorem Tallied.of_mem_iff {calls : List String} (order : t.executionOrder = s.executionOrder)
    (h : ∀ id, id ∈ calls ↔ ∃ i, s.InBatch i id) : Tallied calls t := by
  have batches : ∀ i id, t.InBatch i id ↔ s.InBatch i id := by simp [State.InBatch, order]
  refine ⟨fun id hid => ?_, fun i id hid => .inl ((h id).mpr ⟨i, (batches i id).mp hid⟩)⟩
  obtain ⟨i, hi⟩ := (h id).mp hid
  exact ⟨i, (batches i id).mpr hi⟩

theorem Tallied.step {calls : List String} {a : Act} (h : Tallied calls s) (placed : Placed req s)
    (running : Running req allowed s) (hs : step req s a = some t) :
    Tallied (calls ++ a.dispatched.toList) t := by
  obtain ⟨err, rfl, _, _, rfl⟩ | ⟨rfl, hpc, rfl⟩ | ⟨id', wave, slots, rfl, hpc, hslot, hid', rfl⟩ |
    ⟨id', result, wave, slots, rfl, hpc, hslot, _, rfl⟩ | ⟨wave, slots, rfl, hpc, returned, rfl⟩ |
    ⟨id', result, dispID, pending, waitCh, rfl, hpc, _, rfl⟩ |
    ⟨pending, wr, waitCh, rfl, hpc, rfl⟩ | ⟨rfl, hpc, rfl⟩ | ⟨rfl, hpc, rfl⟩ := step_cases hs
  all_goals simp only [Act.dispatched, Option.toList_none, Option.toList_some, List.append_nil]
  · exact ⟨h.batched, h.called⟩
  · have exact := h.mem_iff (by simp [hpc])
    obtain ⟨u, settled, ⟨e, _⟩ | ⟨e, _⟩ | ⟨wave, _, _, _, _, e⟩⟩ := round_cases running.core
    all_goals
      have order : u.executionOrder = s.executionOrder := by rw [settled.frame]
      rw [e]
    · exact .of_mem_iff order exact
    · exact .of_mem_iff order exact
    · refine ⟨fun id hid => ?_, ?_⟩
      · obtain ⟨i, batch, hbatch, hid⟩ := (exact id).mp hid
        rw [← order] at hbatch
        exact ⟨i, batch, List.getElem?_append_left (List.getElem?_eq_some_iff.mp hbatch).1 ▸ hbatch,
          hid⟩
      · rintro i id ⟨batch, hbatch, hid⟩
        rcases lt_or_ge i u.executionOrder.length with hlt | hge
        · rw [List.getElem?_append_left hlt, order] at hbatch
          exact .inl ((exact id).mpr ⟨i, batch, hbatch, hid⟩)
        · have hi : i = u.executionOrder.length := by
            have := (List.getElem?_eq_some_iff.mp hbatch).1
            simp at this
            omega
          subst hi
          rw [List.getElem?_concat_length] at hbatch
          exact .inr ⟨wave, _, rfl, Option.some.inj hbatch ▸ hid, rfl⟩
  · refine ⟨fun id hid => ?_, fun i id hid => ?_⟩
    · rcases List.mem_append.mp hid with hold | hnew
      · exact h.batched id hold
      · rw [List.mem_singleton.mp hnew]
        exact ⟨s.batchNum, placed.active id' (by rw [hpc]; exact hid')⟩
    · by_cases e : id = id'
      · exact .inl (by simp [e])
      · rcases h.called i id hid with hold | ⟨wave', slots', e', hwave, hspawned⟩
        · exact .inl (List.mem_append_left _ hold)
        · rw [hpc] at e'
          cases e'
          exact .inr ⟨wave, _, rfl, hwave, by simpa [e] using hspawned⟩
  · refine ⟨h.batched, fun i id hid => ?_⟩
    rcases h.called i id hid with hold | ⟨wave', slots', e', hwave, hspawned⟩
    · exact .inl hold
    · rw [hpc] at e'
      cases e'
      have hne : id ≠ id' := by
        rintro rfl
        rw [hslot] at hspawned
        cases hspawned
      exact .inr ⟨wave, _, rfl, hwave, by simpa [hne] using hspawned⟩
  · have exact : ∀ id, id ∈ calls ↔ ∃ i, s.InBatch i id := by
      refine fun id => ⟨h.batched id, ?_⟩
      rintro ⟨i, hid⟩
      rcases h.called i id hid with hold | ⟨wave', slots', e', hwave, hspawned⟩
      · exact hold
      · rw [hpc] at e'
        cases e'
        have := returned id hwave
        simp [hspawned, Slot.isReturned] at this
    exact .of_mem_iff (by rw [(running.spawned hpc returned).frame]) exact
  · exact ⟨h.batched, fun i id hid => .inl ((h.mem_iff (by simp [hpc]) id).mpr ⟨i, hid⟩)⟩
  · obtain ⟨error, e⟩ := collect_eq_settle s wr
    rw [e]
    exact .of_mem_iff rfl (h.mem_iff (by simp [hpc]))
  · exact .of_mem_iff rfl (h.mem_iff (by simp [hpc]))
  · exact .of_mem_iff rfl (h.mem_iff (by simp [hpc]))

/-! ## Runs -/

/-- A call that has not returned, with the tasks it called `Dispatch` for. -/
structure Booked (req : ScheduleRequest) (calls : List String) (s : State) : Prop where
  running : Running req (fun _ _ => True) s
  placed : Placed req s
  tallied : Tallied calls s

/-- A call, running or returned from a running state past the loop. -/
def Ledger (req : ScheduleRequest) (calls : List String) (s : State) : Prop :=
  Booked req calls s ∧ (∀ err, s.pc ≠ .returned err) ∨
    ∃ u, Booked req calls u ∧ u.pc = .exit ∧
      s = { u with outcomes := fillCanceled req.ids u.outcomes, pc := .returned u.ctxErr }

/-- A step of a call that does not return. -/
theorem Booked.goesOn {calls : List String} (h : Booked req calls s) (valid : req.Valid) {a : Act}
    (live : ∀ err, s.pc ≠ .returned err) (hs : step req s a = some t) (hret : a ≠ .ret) :
    Booked req (calls ++ a.dispatched.toList) t ∧ ∀ err, t.pc ≠ .returned err := by
  obtain ⟨running, live⟩ := h.running.goesOn a.obeys_any live hs hret
  exact ⟨⟨running, h.placed.step valid h.running hs hret, h.tallied.step h.placed h.running hs⟩,
    live⟩

/-- What every step of a running call keeps, holds in the books of every reachable state; of a call
that has returned, before the final sweep. -/
theorem ledger_invariant {order : req.MapOrder} {d : DAG} (valid : req.validate order = .ok d)
    (P : State → Prop) (init : P (start d))
    (preserved : ∀ calls s a t, Booked req calls s → Booked req (calls ++ a.dispatched.toList) t →
      P s → step req s a = some t → a ≠ .ret → P t)
    {acts : List Act} (h : run (step req) (start d) acts = some s) :
    (Booked req (acts.filterMap Act.dispatched) s ∧ P s ∧ ∀ err, s.pc ≠ .returned err) ∨
      ∃ u, Booked req (acts.filterMap Act.dispatched) u ∧ P u ∧ u.pc = .exit ∧
        s = { u with outcomes := fillCanceled req.ids u.outcomes, pc := .returned u.ctxErr } := by
  obtain ⟨wellFormed, tracks, empty⟩ := validate_ok valid
  refine run_history (fun past s =>
    (Booked req (past.filterMap Act.dispatched) s ∧ P s ∧ ∀ err, s.pc ≠ .returned err) ∨
      ∃ u, Booked req (past.filterMap Act.dispatched) u ∧ P u ∧ u.pc = .exit ∧
        s = { u with outcomes := fillCanceled req.ids u.outcomes, pc := .returned u.ctxErr }) ?_ h
    (.inl ⟨⟨.start tracks empty, .start d, by simp, by simp [State.InBatch, start]⟩, init,
      by simp [Scheduler.start]⟩)
  rintro past s a t (⟨booked, hP, live⟩ | ⟨u, _, _, _, rfl⟩) hs
  · have calls : (past ++ [a]).filterMap Act.dispatched =
        past.filterMap Act.dispatched ++ a.dispatched.toList := by
      cases hd : a.dispatched <;> simp [hd]
    rw [calls]
    by_cases hret : a = .ret
    · subst hret
      obtain ⟨hpc, rfl⟩ := Running.returns hs
      exact .inr ⟨s, by simpa [Act.dispatched] using booked, hP, hpc, rfl⟩
    · obtain ⟨booked', live'⟩ := booked.goesOn wellFormed live hs hret
      exact .inl ⟨booked', preserved _ s a t booked booked' hP hs hret, live'⟩
  · rw [step_returned rfl] at hs
    cases hs

/-- The books of every reachable state. -/
theorem ledger {order : req.MapOrder} {d : DAG} (valid : req.validate order = .ok d)
    {acts : List Act} (h : run (step req) (start d) acts = some s) :
    Ledger req (acts.filterMap Act.dispatched) s := by
  obtain ⟨booked, _, live⟩ | ⟨u, booked, _, hpc, e⟩ :=
    ledger_invariant valid (fun _ => True) trivial (by simp) h
  · exact .inl ⟨booked, live⟩
  · exact .inr ⟨u, booked, hpc, e⟩

/-- What a returned result says about the tasks of the request, when `Dispatch` was called for
`calls`. -/
structure Accounted (req : ScheduleRequest) (calls : List String) (s : State) : Prop where
  complete : ∀ id, (s.outcomes id).isSome ↔ id ∈ req.ids
  taskID : ∀ id o, s.outcomes id = some o → o.taskID = id
  dispatched : ∀ id, id ∈ calls ↔ ∃! i, s.InBatch i id
  once : s.executionOrder.flatten.Nodup
  batch : ∀ id o i, s.outcomes id = some o → s.InBatch i id → o.batch = i
  undispatched : ∀ id o, s.outcomes id = some o → id ∉ calls →
    o.status = "skipped" ∧ (∃ a ∈ req.deps id, s.Failed a) ∨
      o.status = "canceled" ∧ o.batch = -1 ∧ s.ctxErr.isSome

/-- The final sweep completes the books of a call that left its loop. -/
theorem Booked.accounted {calls : List String} (h : Booked req calls u) (hpc : u.pc = .exit) :
    Accounted req calls
      { u with outcomes := fillCanceled req.ids u.outcomes, pc := .returned u.ctxErr } := by
  have core := h.running.core
  have exact := h.tallied.mem_iff (by simp [hpc])
  have known : ∀ id o, u.outcomes id = some o → id ∈ req.ids := fun id o ho =>
    core.tracks.completed id ((core.recorded id).mp (by simp [ho]))
  -- A task has the outcome of its own, or is swept up: then it is in no batch.
  have swept : ∀ id o, fillCanceled req.ids u.outcomes id = some o → u.outcomes id = some o ∨
      u.outcomes id = none ∧ id ∈ req.ids ∧
        o = { taskID := id, status := "canceled", batch := -1 } := by
    intro id o ho
    cases hold : u.outcomes id with
    | some o' => exact .inl (by simpa [fillCanceled, hold] using ho)
    | none =>
      simp only [fillCanceled, hold] at ho
      split_ifs at ho with hid
      cases ho
      exact .inr ⟨rfl, hid, rfl⟩
  have batched : ∀ i id, u.InBatch i id → ∃ o, u.outcomes id = some o := by
    intro i id hid
    have := h.placed.placed i id hid
    simpa [hpc, PC.active, Option.isSome_iff_exists] using this
  refine ⟨?_, ?_, ?_, h.placed.once, ?_, ?_⟩
  · intro id
    cases ho : u.outcomes id with
    | some o => simp [fillCanceled, ho, known id o ho]
    | none => simp [fillCanceled, ho]
  · intro id o ho
    rcases swept id o ho with ho | ⟨_, _, rfl⟩
    · exact (h.placed.explained id o ho).taskID
    · rfl
  · intro id
    rw [exact]
    constructor
    · rintro ⟨i, hi⟩
      exact ⟨i, hi, fun j hj => h.placed.unique hj hi⟩
    · rintro ⟨i, hi, _⟩
      exact ⟨i, hi⟩
  · intro id o i ho hi
    obtain ⟨o', ho'⟩ := batched i id hi
    rcases swept id o ho with ho | ⟨hnone, _⟩
    · exact h.placed.batch_eq ho hi
    · rw [hnone] at ho'
      cases ho'
  · intro id o ho hcalls
    rw [exact] at hcalls
    rcases swept id o ho with ho | ⟨hnone, hid, rfl⟩
    · obtain ⟨_, ⟨j, _, hbatch⟩ | ⟨_, hskipped, a, ha, o', ho', hne⟩⟩ := h.placed.explained id o ho
      · exact absurd ⟨j, hbatch⟩ hcalls
      · exact .inl ⟨hskipped, a, ha, o', by simp [fillCanceled, ho'], hne⟩
    · refine .inr ⟨rfl, rfl, ?_⟩
      rcases h.placed.left (by simp [hpc, PC.pastLoop]) with hr | hctx
      · have hdone := core.tracks.completed_of_remaining hr hid
        rw [← core.recorded, hnone] at hdone
        cases hdone
      · exact hctx

/-- A bound on the steps of a call, its cancellation included. -/
def State.measure (s : State) : ℕ := s.rank + if s.ctxErr.isNone then 1 else 0

/-- Only a cancellation changes the context. -/
theorem ctxErr_step (running : Running req allowed s) {a : Act} (hs : step req s a = some t)
    (uncancelled : ∀ err, a ≠ .cancel err) : t.ctxErr = s.ctxErr := by
  obtain ⟨err, rfl, _, _, rfl⟩ | ⟨rfl, hpc, rfl⟩ | ⟨_, _, _, rfl, _, _, _, rfl⟩ |
    ⟨_, _, _, _, rfl, _, _, _, rfl⟩ | ⟨wave, slots, rfl, hpc, returned, rfl⟩ |
    ⟨_, _, _, _, _, rfl, _, _, rfl⟩ | ⟨pending, wr, waitCh, rfl, _, rfl⟩ | ⟨rfl, _, rfl⟩ |
    ⟨rfl, _, rfl⟩ := step_cases hs
  · exact absurd rfl (uncancelled err)
  · obtain ⟨u, settled, ⟨e, _⟩ | ⟨e, _⟩ | ⟨wave, _, _, _, _, e⟩⟩ := round_cases running.core
    all_goals
      rw [e]
      exact settled.ctxErr_eq
  · rfl
  · rfl
  · exact (running.spawned hpc returned).ctxErr_eq
  · rfl
  · obtain ⟨error, e⟩ := collect_eq_settle s wr
    rw [e]
    rfl
  · rfl
  · rfl

theorem measure_step (running : Running req allowed s) {a : Act} (hs : step req s a = some t) :
    t.measure < s.measure := by
  by_cases hcancel : ∃ err, a = .cancel err
  · obtain ⟨err, rfl⟩ := hcancel
    have cases := step_cases hs
    simp only [reduceCtorEq, false_and, exists_false, or_false, Act.cancel.injEq] at cases
    obtain ⟨_, _, _, hnone, rfl⟩ := cases
    simp [State.measure, State.rank, hnone]
  · have uncancelled : ∀ err, a ≠ .cancel err := fun err e => hcancel ⟨err, e⟩
    have := rank_step running uncancelled hs
    simp only [State.measure, ctxErr_step running hs uncancelled]
    omega

theorem run_length_le {order : req.MapOrder} {d : DAG} (valid : req.validate order = .ok d)
    {acts : List Act} (h : run (step req) (start d) acts = some s) :
    acts.length ≤ 7 * req.ids.length + 3 := by
  obtain ⟨_, tracks, empty⟩ := validate_ok valid
  have meets : Meets (step req) (fun _ _ => True) (start d) acts := .of_forall fun _ _ => trivial
  have bound := meets.length_le (Inv req fun _ _ => True) State.measure
    (fun _ a _ hi _ hs => hi.step a.obeys_any hs)
    (fun _ _ _ hi _ hs => by
      obtain ⟨running, _⟩ | ⟨u, _, _, rfl⟩ := hi
      · exact measure_step running hs
      · rw [step_returned rfl] at hs
        cases hs)
    h (.inl ⟨.start tracks empty, nofun⟩)
  have hmeasure : (start d).measure = 7 * req.ids.length + 3 := by
    simp [State.measure, State.rank, start, DAG.remaining, empty, tracks.nodes.length_eq]
  omega

/-- A round that sees the context cancelled starts no wave. -/
theorem round_cancelled (core : Core req allowed s) (hctx : s.ctxErr.isSome)
    (hs : step req s .round = some t) :
    t.executionOrder = s.executionOrder ∧ ∀ wave slots, t.pc ≠ .dispatching wave slots := by
  have cases := step_cases hs
  simp only [reduceCtorEq, false_and, exists_false, false_or, or_false, true_and] at cases
  obtain ⟨hpc, rfl⟩ := cases
  obtain ⟨u, settled, _, ⟨e, _⟩ | ⟨e, _⟩ | ⟨wave, hnone, _⟩⟩ := round_cases_skips core
  · rw [e]
    exact ⟨by rw [settled.frame], nofun⟩
  · rw [e]
    exact ⟨by rw [settled.frame], by simp [settled.pc_eq, hpc]⟩
  · simp [hnone] at hctx

/-- Cancelled calls still account for every task. Let a valid request run with any cancellation of
its context, any answers of `Dispatch` and `WaitFor`, and any interleaving. No run is longer than
seven steps for a task and three, and a call that has not returned can go on, or goes on as soon as
some `Dispatch` or `WaitFor` returns. No wave starts while the context is cancelled. A call that
returns has one outcome for each task of the request and nothing else; the tasks it dispatched are
those of its batches, each in one of them, and their outcomes carry the number of that batch; any
other task was skipped because of a dependency that did not complete, or is "canceled" in batch -1
and the context was cancelled. The returned error is the error of the context. -/
theorem cancelled_accounted {order : req.MapOrder} {d : DAG} (valid : req.validate order = .ok d)
    {acts : List Act} (h : run (step req) (start d) acts = some s) :
    acts.length ≤ 7 * req.ids.length + 3 ∧
      ((∃ err, s.pc = .returned err) ∨ (∃ a, a.internal ∧ (step req s a).isSome) ∨
        (∃ id, ∀ result, (step req s (.dispatchReturns id result)).isSome) ∨
        ∃ id, ∀ result, (step req s (.waitReturns id result)).isSome) ∧
      (s.ctxErr.isSome → ∀ t, step req s .round = some t →
        t.executionOrder = s.executionOrder ∧ ∀ wave slots, t.pc ≠ .dispatching wave slots) ∧
      ∀ err, s.pc = .returned err →
        err = s.ctxErr ∧ Accounted req (acts.filterMap Act.dispatched) s := by
  have books := ledger valid h
  refine ⟨run_length_le valid h, ?_, ?_, ?_⟩
  · by_cases live : ∀ err, s.pc ≠ .returned err
    · refine .inr ((progress req live).imp_right (.imp_right ?_))
      rintro ⟨entry, _, _, _, _, enabled⟩
      exact ⟨entry.1, enabled⟩
    · exact .inl (by simpa using live)
  · intro hctx t hs
    obtain ⟨booked, _⟩ | ⟨u, _, _, rfl⟩ := books
    · exact round_cancelled booked.running.core hctx hs
    · rw [step_returned rfl] at hs
      cases hs
  · intro err hpc
    obtain ⟨_, live⟩ | ⟨u, booked, hexit, rfl⟩ := books
    · exact absurd hpc (live err)
    · cases hpc
      exact ⟨rfl, booked.accounted hexit⟩

/-- Two chains with a common start. -/
def chain : ScheduleRequest where
  tasks := [
    { id := "a" }, { id := "b", dependsOn := ["a"] }, { id := "c", dependsOn := ["b"] },
    { id := "d", dependsOn := ["a"] }, { id := "e", dependsOn := ["d"] }]

def chainOrder : chain.MapOrder where
  tasks := ["c", "a", "e", "b", "d"]
  nodes := ["b", "d", "a", "c", "e"]
  tasks_perm := by decide
  nodes_perm := by decide

/-- The context is cancelled while the second wave is waited for: one `WaitFor` fails and its
dependent is skipped, the other task completes and its dependent is not started. -/
def chainCancelled : List Act := [
  .round, .callDispatch "a", .dispatchReturns "a" (.ok "a"), .spawnWaits,
  .waitReturns "a" (.ok { taskID := "a", status := .completed }), .receive, .endWave, .round,
  .callDispatch "d", .callDispatch "b", .dispatchReturns "b" (.ok "b"),
  .dispatchReturns "d" (.ok "d"), .spawnWaits, .cancel .canceled,
  .waitReturns "d" (.ok { taskID := "d", status := .completed }),
  .waitReturns "b" (.error CtxErr.canceled.toError), .receive, .receive, .endWave, .round, .ret]

theorem chainCancelled_returns :
    ∃ d s, chain.validate chainOrder = .ok d ∧
      run (step chain) (start d) chainCancelled = some s ∧ s.pc = .returned (some .canceled) := by
  have enabled : ((chain.validate chainOrder).toOption.bind fun d =>
      (run (step chain) (start d) chainCancelled).bind (·.pc.result)) = some (some .canceled) := by
    decide
  obtain ⟨d, hd, h⟩ := Option.bind_eq_some_iff.mp enabled
  obtain ⟨s, hs, h⟩ := Option.bind_eq_some_iff.mp h
  exact ⟨d, s, toOption_eq_some.mp hd, hs, PC.result_eq_some.mp h⟩

theorem cancelled_accounted_chain :
    ∃ d s, chain.validate chainOrder = .ok d ∧
      run (step chain) (start d) chainCancelled = some s ∧
      s.pc = .returned (some .canceled) ∧ Accounted chain ["a", "d", "b"] s := by
  obtain ⟨d, s, valid, hs, hpc⟩ := chainCancelled_returns
  exact ⟨d, s, valid, hs, hpc, ((cancelled_accounted valid hs).2.2.2 _ hpc).2⟩

end Daedalus.Scheduler
