import Daedalus.Scheduler.Safety

/-!
# The outcomes of an undisturbed `Schedule` call

The purpose of a call, stated without waves, counters or flags: every task ends in the status of
its own run if all its dependencies completed, and is skipped otherwise (`expected`). A call whose
context is never cancelled and whose dispatcher and waiter answer as `own` says makes progress in
every state, ends after a bounded number of steps, and returns exactly these statuses.
-/
namespace Daedalus.Scheduler

open Foundation A2A Orchestrator

/-- What happens if a task is run. -/
inductive Own where
  | dispatchError (err : GoError)
  | waitError (err : GoError)
  | result (state : TaskState)

/-- The status derived from it. -/
def Own.status : Own → String
  | .dispatchError _ => "failed"
  | .waitError err => if err.isCanceled then "canceled" else "failed"
  | .result state => outcomeStatus state

/-- The statuses of a request, by recursion along its dependencies. -/
noncomputable def expected {req : ScheduleRequest}
    (wf : WellFounded fun a b => a ∈ req.deps b) (own : String → Own) : String → String :=
  wf.fix fun id status =>
    open Classical in
    if ∃ a, ∃ h : a ∈ req.deps id, status a h ≠ "completed" then "skipped" else (own id).status

variable {req : ScheduleRequest} {s t : State} {own : String → Own}

theorem expected_eq (wf : WellFounded fun a b => a ∈ req.deps b) (id : String) :
    expected wf own id =
      if ∃ a ∈ req.deps id, expected wf own a ≠ "completed" then "skipped"
      else (own id).status := by
  unfold expected
  rw [wf.fix_eq]
  simp only [exists_prop]

/-- What `Dispatch` may return for a task. -/
def Own.Dispatches : Own → Except GoError String → Prop
  | .dispatchError err, answer => answer = .error err
  | _, answer => ∃ dispID, answer = .ok dispID

/-- What `WaitFor` may return for a task. -/
def Own.Returns : Own → Except GoError TaskResult → Prop
  | .dispatchError _, _ => False
  | .waitError err, answer => answer = .error err
  | .result state, answer => ∃ r, answer = .ok r ∧ r.status = state

/-- The context is never cancelled, and `Dispatch` and `WaitFor` answer as `own` says. -/
def Act.Follows (own : String → Own) : Act → Prop
  | .cancel _ => False
  | .dispatchReturns id result => (own id).Dispatches result
  | .waitReturns id result => (own id).Returns result
  | _ => True

/-- The only status running a task may end in. -/
def Own.allows (own : String → Own) (id status : String) : Prop := status = (own id).status

theorem Act.Follows.obeys {a : Act} (h : a.Follows own) : a.Obeys (Own.allows own) := by
  match a with
  | .dispatchReturns id (.error err) =>
    simp only [Act.Follows] at h
    cases e : own id <;> simp_all [Own.Dispatches, Act.Obeys, Own.allows, Own.status]
  | .waitReturns id result =>
    simp only [Act.Follows] at h
    cases e : own id with
    | dispatchError err => simp [e, Own.Returns] at h
    | waitError err =>
      obtain rfl : result = .error err := by simpa [e, Own.Returns] using h
      simp [Act.Obeys, Own.allows, Own.status, waitStatus, e]
    | result state =>
      obtain ⟨r, rfl, rfl⟩ : ∃ r, result = .ok r ∧ r.status = state := by
        simpa [e, Own.Returns] using h
      simp [Act.Obeys, Own.allows, Own.status, waitStatus, e]
  | .dispatchReturns id (.ok _) => trivial
  | .cancel _ | .round | .callDispatch _ | .spawnWaits | .receive | .endWave | .ret => trivial

theorem Act.Follows.uncancelled {a : Act} (h : a.Follows own) (err : CtxErr) : a ≠ .cancel err := by
  rintro rfl
  exact h

/-- Whether `Dispatch` succeeds for the task. -/
def Own.dispatches : Own → Bool
  | .dispatchError _ => false
  | _ => true

/-- The goroutines in `WaitFor` belong to tasks whose dispatch succeeds. -/
def PC.Answerable (own : String → Own) : PC → Prop
  | .dispatching wave slots =>
    ∀ id ∈ wave, ∀ dispID, slots id = .returned (.ok dispID) → (own id).dispatches
  | .waiting pending _ => ∀ entry ∈ pending, (own entry.1).dispatches
  | _ => True

def PC.pastLoop : PC → Bool
  | .exit => true
  | .returned _ => true
  | _ => false

/-- What holds in addition when nothing is cancelled: the loop is left only when every task is
finished. -/
structure Undisturbed (own : String → Own) (s : State) : Prop where
  ctxErr : s.ctxErr = none
  finished : s.pc.pastLoop → s.d.remaining ≤ 0
  answerable : s.pc.Answerable own

/-! ## Unfinished tasks -/

section Tracks

variable {d : DAG}

theorem Tracks.length_le (h : Tracks req d) {l : List String} (nodup : l.Nodup)
    (hl : ∀ id ∈ l, id ∈ req.ids ∧ id ∉ d.completed) : (l.length : ℤ) ≤ d.remaining := by
  have all : (l ++ d.completed).Nodup := by
    apply nodup.append d.completed_nodup
    exact fun id hid hc => (hl id hid).2 hc
  have known : l ++ d.completed ⊆ d.nodes := by
    intro id hid
    rw [h.nodes.mem_iff]
    rcases List.mem_append.mp hid with hid | hid
    · exact (hl id hid).1
    · exact h.completed id hid
  have := (List.subperm_of_subset all known).length_le
  rw [List.length_append] at this
  unfold DAG.remaining
  omega

theorem Tracks.completed_of_remaining (h : Tracks req d) (hr : d.remaining ≤ 0) {id : String}
    (hid : id ∈ req.ids) : id ∈ d.completed := by
  by_contra hc
  have := h.length_le (List.nodup_singleton id) (by simp [hid, hc])
  simp only [List.length_singleton] at this
  omega

/-- As long as tasks are left, one of them is ready: the no-progress branch is never taken. -/
theorem Tracks.ready_ne_nil (h : Tracks req d) (valid : req.Valid) (hr : 0 < d.remaining) :
    d.ready ≠ [] := by
  have left : ∃ id ∈ req.ids, id ∉ d.completed := by
    by_contra! hall
    have := (List.subperm_of_subset d.nodes_nodup fun id hid =>
      hall id (h.nodes.mem_iff.mp hid)).length_le
    unfold DAG.remaining at hr
    omega
  -- A minimal unfinished task has no unfinished dependency.
  obtain ⟨id, ⟨hid, hc⟩, hmin⟩ :=
    valid.wellFounded.has_min {id | id ∈ req.ids ∧ id ∉ d.completed} left
  apply List.ne_nil_of_mem (a := id)
  rw [h.mem_ready]
  refine ⟨hid, hc, fun a ha => ?_⟩
  by_contra hac
  exact hmin a ⟨valid.known a id ha, hac⟩ ha

end Tracks

/-! ## Progress -/

/-- What `Dispatch` answers for a task. -/
def Own.dispatchResult (id : String) : Own → Except GoError String
  | .dispatchError err => .error err
  | _ => .ok id

/-- What `WaitFor` answers for a task whose dispatch succeeded. -/
def Own.waitResult (id : String) : Own → Except GoError TaskResult
  | .dispatchError err => .error err
  | .waitError err => .error err
  | .result state => .ok { taskID := id, status := state }

theorem Own.dispatches_dispatchResult (o : Own) (id : String) :
    o.Dispatches (o.dispatchResult id) := by
  cases o <;> simp [Own.Dispatches, Own.dispatchResult]

theorem Own.returns_waitResult {o : Own} (h : o.dispatches) (id : String) :
    o.Returns (o.waitResult id) := by
  cases o <;> simp_all [Own.Returns, Own.waitResult, Own.dispatches]

/-- The steps that wait for neither `Dispatch` nor `WaitFor`. -/
def Act.internal : Act → Bool
  | .cancel _ => false
  | .dispatchReturns _ _ => false
  | .waitReturns _ _ => false
  | _ => true

/-- A call that has not returned can go on by itself, or waits for a `Dispatch` or for a `WaitFor`,
and goes on whatever that returns. -/
theorem progress (req : ScheduleRequest) (live : ∀ err, s.pc ≠ .returned err) :
    (∃ a, a.internal ∧ (step req s a).isSome) ∨
      (∃ id, ∀ result, (step req s (.dispatchReturns id result)).isSome) ∨
      ∃ entry pending waitCh, s.pc = .waiting pending waitCh ∧ entry ∈ pending ∧
        ∀ result, (step req s (.waitReturns entry.1 result)).isSome := by
  cases hpc : s.pc with
  | head => exact .inl ⟨.round, rfl, by simp [step, hpc]⟩
  | dispatching wave slots =>
    by_cases hall : wave.all fun id => (slots id).isReturned
    · exact .inl ⟨.spawnWaits, rfl, by simp [step, hpc, hall]⟩
    · obtain ⟨id, hid, hout⟩ : ∃ id ∈ wave, (slots id).isReturned = false := by simpa using hall
      cases hslot : slots id with
      | spawned => exact .inl ⟨.callDispatch id, rfl, by simp [step, hpc, hslot, hid]⟩
      | calling => exact .inr (.inl ⟨id, fun result => by simp [step, hpc, hslot, hid]⟩)
      | returned result => simp [hslot, Slot.isReturned] at hout
  | waiting pending waitCh =>
    cases waitCh with
    | cons wr waitCh => exact .inl ⟨.receive, rfl, by simp [step, hpc]⟩
    | nil =>
      cases pending with
      | nil => exact .inl ⟨.endWave, rfl, by simp [step, hpc]⟩
      | cons entry pending =>
        exact .inr (.inr ⟨entry, _, _, rfl, List.mem_cons_self, fun result => by
          simp [step, hpc]⟩)
  | exit => exact .inl ⟨.ret, rfl, by simp [step, hpc]⟩
  | returned err => exact absurd hpc (live err)

/-- In particular without a cancellation and with the answers of `own`. -/
theorem Undisturbed.progress (h : Undisturbed own s) (live : ∀ err, s.pc ≠ .returned err) :
    ∃ a, a.Follows own ∧ (step req s a).isSome := by
  obtain ⟨a, internal, enabled⟩ | ⟨id, enabled⟩ | ⟨entry, pending, waitCh, hpc, hentry, enabled⟩ :=
    Scheduler.progress req live
  · refine ⟨a, ?_, enabled⟩
    cases a <;> trivial
  · exact ⟨.dispatchReturns id ((own id).dispatchResult id),
      (own id).dispatches_dispatchResult id, enabled _⟩
  · have answerable := h.answerable
    rw [hpc] at answerable
    exact ⟨.waitReturns entry.1 ((own entry.1).waitResult entry.1),
      Own.returns_waitResult (answerable entry hentry) entry.1, enabled _⟩

/-! ## Steps -/

theorem Own.dispatches_of_ok {o : Own} {dispID : String} (h : o.Dispatches (.ok dispID)) :
    o.dispatches := by
  cases o <;> simp_all [Own.Dispatches, Own.dispatches]

theorem Undisturbed.step (h : Undisturbed own s) (valid : req.Valid)
    (running : Running req (Own.allows own) s) {a : Act} (follows : a.Follows own)
    (hs : step req s a = some t) : Undisturbed own t := by
  obtain ⟨err, rfl, _, _, rfl⟩ | ⟨rfl, hpc, rfl⟩ | ⟨id', wave, slots, rfl, hpc, _, _, rfl⟩ |
    ⟨id', result, wave, slots, rfl, hpc, _, _, rfl⟩ | ⟨wave, slots, rfl, hpc, returned, rfl⟩ |
    ⟨id', result, dispID, pending, waitCh, rfl, hpc, _, rfl⟩ |
    ⟨pending, wr, waitCh, rfl, hpc, rfl⟩ | ⟨rfl, hpc, rfl⟩ | ⟨rfl, hpc, rfl⟩ := step_cases hs
  · exact follows.elim
  · obtain ⟨u, settled, ⟨e, why⟩ | ⟨e, _⟩ | ⟨wave, _, _, _, _, e⟩⟩ := round_cases running.core
    all_goals
      rw [e]
    · refine ⟨settled.ctxErr_eq.trans h.ctxErr, fun _ => ?_, trivial⟩
      obtain ⟨rfl, hr⟩ | ⟨hr, hready⟩ | hctx := why
      · exact hr
      · exact absurd hready (running.core.tracks.ready_ne_nil valid hr)
      · simp [h.ctxErr] at hctx
    · have hu : u.pc = .head := settled.pc_eq.trans hpc
      exact ⟨settled.ctxErr_eq.trans h.ctxErr, by simp [hu, PC.pastLoop],
        by simp [hu, PC.Answerable]⟩
    · exact ⟨settled.ctxErr_eq.trans h.ctxErr, nofun, by simp [PC.Answerable]⟩
  · refine ⟨h.ctxErr, nofun, ?_⟩
    have answerable := h.answerable
    rw [hpc] at answerable
    intro id hid dispID hslot
    rw [Function.update_apply] at hslot
    split_ifs at hslot
    exact answerable id hid dispID hslot
  · refine ⟨h.ctxErr, nofun, ?_⟩
    have answerable := h.answerable
    rw [hpc] at answerable
    intro id hid dispID hslot
    rw [Function.update_apply] at hslot
    split_ifs at hslot with e
    · cases hslot
      exact e ▸ Own.dispatches_of_ok follows
    · exact answerable id hid dispID hslot
  · have sp := running.spawned hpc returned
    have answerable := h.answerable
    rw [hpc] at answerable
    refine ⟨sp.ctxErr_eq.trans h.ctxErr, nofun, ?_⟩
    intro entry hentry
    have hwave := sp.sublist.subset (List.mem_map_of_mem hentry)
    exact answerable entry.1 hwave entry.2 (sp.dispatched entry hentry)
  · have answerable := h.answerable
    rw [hpc] at answerable
    exact ⟨h.ctxErr, nofun, fun entry hentry => answerable entry (List.mem_of_mem_erase hentry)⟩
  · have answerable := h.answerable
    rw [hpc] at answerable
    obtain ⟨error, e⟩ := collect_eq_settle s wr
    rw [e]
    exact ⟨h.ctxErr, nofun, answerable⟩
  · exact ⟨h.ctxErr, nofun, trivial⟩
  · exact ⟨h.ctxErr, fun _ => h.finished (by simp [hpc, PC.pastLoop]), trivial⟩

/-! ## Termination -/

def Slot.rank : Slot → ℕ
  | .spawned => 2
  | .calling => 1
  | .returned _ => 0

/-- An upper bound on the steps a call still makes: at most seven for a task, one to leave the
loop and one to return. -/
def State.rank (s : State) : ℕ :=
  match s.pc with
  | .head => 7 * s.d.remaining.toNat + 2
  | .dispatching wave slots =>
    7 * (s.d.remaining.toNat - wave.length) + 4 + 2 * wave.length +
      (wave.map fun id => (slots id).rank).sum
  | .waiting pending waitCh =>
    7 * (s.d.remaining.toNat - (pending.length + waitCh.length)) + 3 + 2 * pending.length +
      waitCh.length
  | .exit => 1
  | .returned _ => 0

theorem sum_rank_update_lt {wave : List String} {slots : String → Slot} {id : String} {slot : Slot}
    (hid : id ∈ wave) (hlt : slot.rank < (slots id).rank) :
    (wave.map fun a => (Function.update slots id slot a).rank).sum <
      (wave.map fun a => (slots a).rank).sum := by
  apply List.sum_lt_sum
  · intro a _
    by_cases e : a = id
    · subst e
      simpa using hlt.le
    · simp [e]
  · exact ⟨id, hid, by simpa using hlt⟩

/-- Every step but the cancellation lowers the bound, whatever the environment answers. -/
theorem rank_step {allowed : String → String → Prop} (running : Running req allowed s) {a : Act}
    (uncancelled : ∀ err, a ≠ .cancel err) (hs : step req s a = some t) : t.rank < s.rank := by
  have bound := running.core.tracks.length_le running.nodup fun id hid =>
    ⟨(running.runnable id hid).known, (running.runnable id hid).unfinished⟩
  obtain ⟨err, rfl, _, _, rfl⟩ | ⟨rfl, hpc, rfl⟩ | ⟨id', wave, slots, rfl, hpc, hslot, hid, rfl⟩ |
    ⟨id', result, wave, slots, rfl, hpc, hslot, hid, rfl⟩ | ⟨wave, slots, rfl, hpc, returned, rfl⟩ |
    ⟨id', result, dispID, pending, waitCh, rfl, hpc, hmem, rfl⟩ |
    ⟨pending, wr, waitCh, rfl, hpc, rfl⟩ | ⟨rfl, hpc, rfl⟩ | ⟨rfl, hpc, rfl⟩ := step_cases hs
  · exact absurd rfl (uncancelled err)
  · obtain ⟨u, settled, ⟨e, _⟩ | ⟨e, hlt⟩ | ⟨wave, hne, nodup, runnable, hle, e⟩⟩ :=
      round_cases running.core
    all_goals rw [e]
    · simp [State.rank, hpc]
    · have hu : u.pc = .head := settled.pc_eq.trans hpc
      have left := settled.core.tracks.length_le List.nodup_nil nofun
      simp only [List.length_nil] at left
      simp only [State.rank, hpc, hu]
      omega
    · have hwave := settled.core.tracks.length_le nodup fun id hid =>
        ⟨(runnable id hid).known, (runnable id hid).unfinished⟩
      have hpos := List.length_pos_iff.mpr hne
      simp only [State.rank, hpc, Slot.rank, List.map_const', List.sum_replicate_nat]
      omega
  · have hlt : Slot.calling.rank < (slots id').rank := by simp [hslot, Slot.rank]
    have := sum_rank_update_lt hid hlt
    simp only [State.rank, hpc]
    omega
  · have hlt : (Slot.returned result).rank < (slots id').rank := by simp [hslot, Slot.rank]
    have := sum_rank_update_lt hid hlt
    simp only [State.rank, hpc]
    omega
  · have sp := running.spawned hpc returned
    rw [hpc] at bound
    have hremaining := sp.remaining
    have hpending := sp.sublist.length_le
    rw [List.length_map] at hpending
    simp only [PC.active] at bound
    simp only [State.rank, hpc, List.length_nil]
    omega
  · have hlen := List.length_erase_of_mem hmem
    have hpos := List.length_pos_of_mem hmem
    simp only [State.rank, hpc, hlen, List.length_append, List.length_singleton]
    omega
  · obtain ⟨error, e⟩ := collect_eq_settle s wr
    have hrun := running.runnable wr.specID (by simp [hpc, PC.active])
    have hremaining := DAG.complete_remaining hrun.unfinished
    rw [hpc] at bound
    simp only [PC.active, List.length_append, List.length_map, List.length_cons] at bound
    simp only [State.rank, hpc, e, settle_d, hremaining, List.length_cons]
    omega
  · simp [State.rank, hpc]
  · simp [State.rank, hpc]

/-! ## The result -/

/-- The statuses recorded so far are the expected ones. -/
theorem Core.status_eq (h : Core req (Own.allows own) s)
    (wf : WellFounded fun a b => a ∈ req.deps b) (id : String) :
    ∀ o, s.outcomes id = some o → o.status = expected wf own id := by
  induction id using wf.induction with
  | _ id ih =>
    intro o ho
    rw [expected_eq]
    obtain ⟨skipped, a, ha, o', ho', hne⟩ | ⟨completed, allowed⟩ := h.verdict id o ho
    · rw [if_pos ⟨a, ha, ih a ha o' ho' ▸ hne⟩]
      exact skipped
    · rw [if_neg]
      · exact allowed
      · rintro ⟨a, ha, hne⟩
        obtain ⟨o', ho', hstatus⟩ := completed a ha
        exact hne (ih a ha o' ho' ▸ hstatus)

/-- What a finished call returns: one outcome for each task of the request. -/
theorem returned_status (running : Running req (Own.allows own) s) (finished : s.d.remaining ≤ 0)
    (wf : WellFounded fun a b => a ∈ req.deps b) (id : String) :
    (fillCanceled req.ids s.outcomes id).map (·.status) =
      if id ∈ req.ids then some (expected wf own id) else none := by
  have core := running.core
  unfold fillCanceled
  split_ifs with hid
  · have hdone := core.tracks.completed_of_remaining finished hid
    obtain ⟨o, ho⟩ := Option.isSome_iff_exists.mp ((core.recorded id).mpr hdone)
    simp [ho, core.status_eq wf id o ho]
  · have hnone := core.outcomes_eq_none fun hc => hid (core.tracks.completed id hc)
    simp [hnone]

/-- One step of an undisturbed call. -/
theorem undisturbed_step (valid : req.Valid) {a : Act}
    (h : Inv req (Own.allows own) s ∧ Undisturbed own s) (follows : a.Follows own)
    (hs : step req s a = some t) :
    (Inv req (Own.allows own) t ∧ Undisturbed own t) ∧ t.rank < s.rank := by
  obtain ⟨inv, undisturbed⟩ := h
  obtain ⟨running, live⟩ | ⟨u, _, _, rfl⟩ := inv
  · exact ⟨⟨running.step follows.obeys live hs, undisturbed.step valid running follows hs⟩,
      rank_step running follows.uncancelled hs⟩
  · rw [step_returned rfl] at hs
    cases hs

/-- Every run of an undisturbed call, with the number of steps it took. -/
theorem undisturbed_run {order : req.MapOrder} {d : DAG} (valid : req.validate order = .ok d)
    {acts : List Act} (h : run (step req) (start d) acts = some s)
    (follows : ∀ a ∈ acts, a.Follows own) :
    Inv req (Own.allows own) s ∧ Undisturbed own s ∧
      acts.length ≤ 7 * req.ids.length + 2 := by
  obtain ⟨wellFormed, tracks, empty⟩ := validate_ok valid
  have hstart : Inv req (Own.allows own) (start d) ∧ Undisturbed own (start d) :=
    ⟨.inl ⟨.start tracks empty, nofun⟩, rfl, nofun, trivial⟩
  have meets : Meets (step req) (fun _ a => a.Follows own) (start d) acts := .of_forall follows
  have inv := meets.invariant _
    (fun _ _ _ hi ha hs => (undisturbed_step wellFormed hi ha hs).1) h hstart
  have bound := meets.length_le _ State.rank
    (fun _ _ _ hi ha hs => (undisturbed_step wellFormed hi ha hs).1)
    (fun _ _ _ hi ha hs => (undisturbed_step wellFormed hi ha hs).2) h hstart
  have hrank : (start d).rank = 7 * req.ids.length + 2 := by
    simp [State.rank, start, DAG.remaining, empty, tracks.nodes.length_eq]
  exact ⟨inv.1, inv.2, by omega⟩

/-- The outcome semantics of `Schedule`. Let the context never be cancelled and every task run
as `own` says. Then in every state that is reached the call can go on or has returned, no run is
longer than seven steps for a task and two, and the loop is left only when no task remains. A
returned result has no error, the IDs of the request for its keys, and the statuses given by the
recursion, which mentions neither the order of events nor that of the maps. -/
theorem schedule_outcomes {order : req.MapOrder} {d : DAG} (valid : req.validate order = .ok d)
    (own : String → Own) :
    ∃ status : String → String,
      (∀ id, status id =
        if ∃ a ∈ req.deps id, status a ≠ "completed" then "skipped" else (own id).status) ∧
      ∀ (order' : req.MapOrder) (d' : DAG), req.validate order' = .ok d' →
      ∀ acts s, run (step req) (start d') acts = some s → (∀ a ∈ acts, a.Follows own) →
        acts.length ≤ 7 * req.ids.length + 2 ∧
        ((∃ err, s.pc = .returned err) ∨ ∃ a, a.Follows own ∧ (step req s a).isSome) ∧
        (s.pc = .exit → s.d.remaining = 0) ∧
        (∀ err, s.pc = .returned err → err = none ∧ ∀ id,
          (s.outcomes id).map (·.status) = if id ∈ req.ids then some (status id) else none) := by
  have wf := (validate_ok valid).1.wellFounded
  refine ⟨expected wf own, expected_eq wf, ?_⟩
  intro order' d' valid' acts s h follows
  obtain ⟨inv, undisturbed, bound⟩ := undisturbed_run valid' h follows
  refine ⟨bound, ?_, ?_, ?_⟩
  · by_cases live : ∀ err, s.pc ≠ .returned err
    · exact .inr (undisturbed.progress live)
    · exact .inl (by simpa using live)
  · intro hpc
    have hle := undisturbed.finished (by simp [hpc, PC.pastLoop])
    obtain ⟨running, _⟩ | ⟨u, _, _, rfl⟩ := inv
    · have hge := running.core.tracks.length_le List.nodup_nil nofun
      simp only [List.length_nil] at hge
      omega
    · cases hpc
  · intro err hpc
    obtain ⟨_, live⟩ | ⟨u, running, _, rfl⟩ := inv
    · exact absurd hpc (live err)
    · cases hpc
      refine ⟨undisturbed.ctxErr, fun id => ?_⟩
      exact returned_status running (undisturbed.finished rfl) wf id

/-- The diamond with a failing task: its sibling completes, the task below is skipped. -/
def diamondFailing : List Act := [
  .round, .callDispatch "a", .dispatchReturns "a" (.ok "a"), .spawnWaits,
  .waitReturns "a" (.ok { taskID := "a", status := .completed }), .receive, .endWave, .round,
  .callDispatch "c", .callDispatch "b", .dispatchReturns "b" (.ok "b"),
  .dispatchReturns "c" (.ok "c"), .spawnWaits,
  .waitReturns "c" (.ok { taskID := "c", status := .completed }),
  .waitReturns "b" (.ok { taskID := "b", status := .failed }),
  .receive, .receive, .endWave, .round, .round, .ret]

def diamondOwn (id : String) : Own := if id = "b" then .result .failed else .result .completed

theorem schedule_outcomes_diamond :
    ∃ d s, diamond.validate diamondOrder = .ok d ∧
      run (step diamond) (start d) diamondFailing = some s ∧
      (s.outcomes "c").map (·.status) = some "completed" ∧
      (s.outcomes "d").map (·.status) = some "skipped" := by
  have enabled : ((diamond.validate diamondOrder).toOption.bind fun d =>
      (run (step diamond) (start d) diamondFailing).bind (·.pc.result)) = some none := by decide
  obtain ⟨d, hd, h⟩ := Option.bind_eq_some_iff.mp enabled
  obtain ⟨s, hs, h⟩ := Option.bind_eq_some_iff.mp h
  have valid := toOption_eq_some.mp hd
  have hpc : s.pc = .returned none := PC.result_eq_some.mp h
  have follows : ∀ a ∈ diamondFailing, a.Follows diamondOwn := by
    simp [diamondFailing, Act.Follows, diamondOwn, Own.Dispatches, Own.Returns]
  obtain ⟨status, eq, all⟩ := schedule_outcomes valid diamondOwn
  have result := ((all diamondOrder d valid diamondFailing s hs follows).2.2.2 none hpc).2
  have ha : status "a" = "completed" := by
    rw [eq]
    simp [show diamond.deps "a" = [] by decide, diamondOwn, Own.status, outcomeStatus]
  have hb : status "b" = "failed" := by
    rw [eq]
    simp [show diamond.deps "b" = ["a", "a"] by decide, ha, diamondOwn, Own.status, outcomeStatus]
  refine ⟨d, s, valid, hs, ?_, ?_⟩
  · rw [result, eq]
    simp [show diamond.deps "c" = ["a"] by decide, ha, diamondOwn, Own.status, outcomeStatus,
      show "c" ∈ diamond.ids by decide]
  · rw [result, eq]
    simp [show diamond.deps "d" = ["b", "c"] by decide, hb, show "d" ∈ diamond.ids by decide]

end Daedalus.Scheduler
