import Daedalus.Scheduler.Accounting

/-!
# Cancelled or failed

A cancellation of the context reaches a task as the error of its `Dispatch` or as the error of its
`WaitFor`. The loop classifies the two in different places. The status of a finished task is traced
back to the answer it comes from, and the answers forward to the statuses they end in.
-/
namespace Daedalus.Scheduler

open Foundation A2A Orchestrator

variable {req : ScheduleRequest} {allowed : String → String → Prop} {s t : State}

/-- A step that records "failed" has the answer at hand. -/
theorem Recorded.of_failed {id status : String} {a : Act} (h : Recorded s id a status)
    (hfailed : status = "failed") :
    (∃ wave slots err, s.pc = .dispatching wave slots ∧ slots id = .returned (.error err)) ∨
      ∃ pending waitCh result, s.pc = .waiting pending (⟨id, result⟩ :: waitCh) ∧
        waitStatus result = "failed" := by
  cases h with
  | skipped => simp at hfailed
  | dispatchFailed hpc hid hslot => exact .inl ⟨_, _, _, hpc, hslot⟩
  | received hpc => exact .inr ⟨_, _, _, hpc, hfailed⟩
  | swept => simp at hfailed

/-- A goroutine of the wave holds the error of its `Dispatch`. -/
def PC.HoldsError (pc : PC) (id : String) (err : GoError) : Prop :=
  ∃ wave slots, pc = .dispatching wave slots ∧ id ∈ wave ∧ slots id = .returned (.error err)

/-- The channel holds what the `WaitFor` of a task returned. -/
def PC.HoldsResult (pc : PC) (id : String) (result : Except GoError TaskResult) : Prop :=
  ∃ pending waitCh, pc = .waiting pending waitCh ∧ ⟨id, result⟩ ∈ waitCh

/-- The answers given so far and the outcomes: an answer is held until it is recorded, what is held
was answered, and what is recorded as failed comes from an answer. -/
structure Reported (past : List Act) (s : State) : Prop where
  dispatchErr : ∀ id err, .dispatchReturns id (.error err) ∈ past →
    s.pc.HoldsError id err ∨ ∃ o, s.outcomes id = some o ∧ o.status = "failed"
  waited : ∀ id result, .waitReturns id result ∈ past →
    s.pc.HoldsResult id result ∨ ∃ o, s.outcomes id = some o ∧ o.status = waitStatus result
  slots : ∀ wave slots, s.pc = .dispatching wave slots →
    ∀ id result, slots id = .returned result → .dispatchReturns id result ∈ past
  channel : ∀ pending waitCh, s.pc = .waiting pending waitCh →
    ∀ wr ∈ waitCh, .waitReturns wr.specID wr.result ∈ past
  failed : ∀ id o, s.outcomes id = some o → o.status = "failed" →
    (∃ err, .dispatchReturns id (.error err) ∈ past) ∨
      ∃ result, .waitReturns id result ∈ past ∧ waitStatus result = "failed"

theorem Reported.start (d : DAG) : Reported [] (start d) := by
  constructor <;> simp [Scheduler.start]

/-- What another goroutine of the wave does leaves the error where it is. -/
theorem heldError_update {wave : List String} {slots : String → Slot} {id id' : String}
    {err : GoError} {slot : Slot} (hid : id ∈ wave) (hslot : slots id = .returned (.error err))
    (other : slots id' ≠ .returned (.error err)) :
    (PC.dispatching wave (Function.update slots id' slot)).HoldsError id err := by
  have hne : id ≠ id' := by
    rintro rfl
    exact other hslot
  exact ⟨wave, _, rfl, hid, by rw [Function.update_of_ne hne, hslot]⟩

/-- The error of a `Dispatch` is held until the wave is dispatched, and recorded then. -/
theorem heldError_step {a : Act} (hs : step req s a = some t)
    {id : String} {err : GoError} (h : s.pc.HoldsError id err) :
    t.pc.HoldsError id err ∨ ∃ o, t.outcomes id = some o ∧ o.status = "failed" := by
  obtain ⟨wave, slots, hpc, hid, hslot⟩ := h
  obtain ⟨_, rfl, _, _, rfl⟩ | ⟨rfl, hpc', rfl⟩ | ⟨id', _, _, rfl, hpc', hslot', _, rfl⟩ |
    ⟨id', result, _, _, rfl, hpc', hslot', _, rfl⟩ | ⟨_, _, rfl, hpc', _, rfl⟩ |
    ⟨_, _, _, _, _, rfl, hpc', _, rfl⟩ | ⟨_, _, _, rfl, hpc', rfl⟩ | ⟨rfl, hpc', rfl⟩ |
    ⟨rfl, hpc', rfl⟩ := step_cases hs
  · exact .inl ⟨wave, slots, hpc, hid, hslot⟩
  · simp [hpc] at hpc'
  · obtain ⟨rfl, rfl⟩ : _ ∧ _ := by simpa [hpc] using hpc'
    exact .inl (heldError_update hid hslot (by simp [hslot']))
  · obtain ⟨rfl, rfl⟩ : _ ∧ _ := by simpa [hpc] using hpc'
    exact .inl (heldError_update hid hslot (by simp [hslot']))
  · obtain ⟨rfl, rfl⟩ : _ ∧ _ := by simpa [hpc] using hpc'
    rcases spawnWait_outcomes s slots wave id with ⟨_, _, _, hnew⟩ | ⟨hnone, _⟩
    · exact .inr ⟨_, hnew, rfl⟩
    · exact absurd hslot (hnone err hid)
  all_goals simp [hpc] at hpc'

/-- The result of a `WaitFor` is held until it is received, and recorded then. -/
theorem heldResult_step {a : Act} (hs : step req s a = some t)
    {id : String} {result : Except GoError TaskResult} (h : s.pc.HoldsResult id result) :
    t.pc.HoldsResult id result ∨ ∃ o, t.outcomes id = some o ∧ o.status = waitStatus result := by
  obtain ⟨pending, waitCh, hpc, hmem⟩ := h
  obtain ⟨_, rfl, _, _, rfl⟩ | ⟨rfl, hpc', rfl⟩ | ⟨_, _, _, rfl, hpc', _, _, rfl⟩ |
    ⟨_, _, _, _, rfl, hpc', _, _, rfl⟩ | ⟨_, _, rfl, hpc', _, rfl⟩ |
    ⟨_, _, _, _, _, rfl, hpc', _, rfl⟩ | ⟨_, wr, _, rfl, hpc', rfl⟩ | ⟨rfl, hpc', rfl⟩ |
    ⟨rfl, hpc', rfl⟩ := step_cases hs
  · exact .inl ⟨pending, waitCh, hpc, hmem⟩
  · simp [hpc] at hpc'
  · simp [hpc] at hpc'
  · simp [hpc] at hpc'
  · simp [hpc] at hpc'
  · obtain ⟨rfl, rfl⟩ : _ ∧ _ := by simpa [hpc] using hpc'
    exact .inl ⟨_, _, rfl, List.mem_append_left _ hmem⟩
  · obtain ⟨rfl, rfl⟩ : _ ∧ _ := by simpa [hpc] using hpc'
    rcases List.mem_cons.mp hmem with rfl | hmem
    · obtain ⟨error, e⟩ := collect_eq_settle s ⟨id, result⟩
      rw [e]
      exact .inr ⟨_, Function.update_self .., rfl⟩
    · exact .inl ⟨_, _, rfl, hmem⟩
  · obtain ⟨rfl, rfl⟩ : _ ∧ _ := by simpa [hpc] using hpc'
    simp at hmem
  · simp [hpc] at hpc'

/-- What a goroutine of the wave holds, its `Dispatch` returned. -/
theorem slot_step (running : Running req allowed s) {a : Act} (hs : step req s a = some t)
    {wave : List String} {slots : String → Slot} {id : String} {result : Except GoError String}
    (hpc : t.pc = .dispatching wave slots) (hslot : slots id = .returned result) :
    a = .dispatchReturns id result ∨
      ∃ wave slots, s.pc = .dispatching wave slots ∧ slots id = .returned result := by
  obtain ⟨_, rfl, _, _, rfl⟩ | ⟨rfl, hpc', rfl⟩ | ⟨id', _, _, rfl, hpc', _, _, rfl⟩ |
    ⟨id', _, _, _, rfl, hpc', _, _, rfl⟩ | ⟨_, _, rfl, _, _, rfl⟩ |
    ⟨_, _, _, _, _, rfl, _, _, rfl⟩ |
    ⟨_, _, _, rfl, _, rfl⟩ | ⟨rfl, _, rfl⟩ | ⟨rfl, _, rfl⟩ := step_cases hs
  · exact .inr ⟨wave, slots, hpc, hslot⟩
  · obtain ⟨u, settled, ⟨e, _⟩ | ⟨e, _⟩ | ⟨_, _, _, _, _, e⟩⟩ := round_cases running.core
    · simp [e] at hpc
    · simp [e, settled.pc_eq, hpc'] at hpc
    · simp only [e, PC.dispatching.injEq] at hpc
      simp [← hpc.2] at hslot
  · simp only [PC.dispatching.injEq] at hpc
    rw [← hpc.2, Function.update_apply] at hslot
    split_ifs at hslot
    exact .inr ⟨_, _, hpc', hslot⟩
  · simp only [PC.dispatching.injEq] at hpc
    rw [← hpc.2, Function.update_apply] at hslot
    split_ifs at hslot with hid
    · cases hslot
      exact .inl (by rw [hid])
    · exact .inr ⟨_, _, hpc', hslot⟩
  all_goals simp at hpc

/-- What the channel holds, a `WaitFor` returned. -/
theorem channel_step (running : Running req allowed s) {a : Act} (hs : step req s a = some t)
    {pending : List (String × String)} {waitCh : List WaitResult} {wr : WaitResult}
    (hpc : t.pc = .waiting pending waitCh) (hwr : wr ∈ waitCh) :
    a = .waitReturns wr.specID wr.result ∨
      ∃ pending waitCh, s.pc = .waiting pending waitCh ∧ wr ∈ waitCh := by
  obtain ⟨_, rfl, _, _, rfl⟩ | ⟨rfl, hpc', rfl⟩ | ⟨_, _, _, rfl, _, _, _, rfl⟩ |
    ⟨_, _, _, _, rfl, _, _, _, rfl⟩ | ⟨_, _, rfl, _, _, rfl⟩ |
    ⟨_, _, _, _, _, rfl, hpc', _, rfl⟩ | ⟨_, _, _, rfl, hpc', rfl⟩ | ⟨rfl, _, rfl⟩ |
    ⟨rfl, _, rfl⟩ := step_cases hs
  · exact .inr ⟨pending, waitCh, hpc, hwr⟩
  · obtain ⟨u, settled, ⟨e, _⟩ | ⟨e, _⟩ | ⟨_, _, _, _, _, e⟩⟩ := round_cases running.core
    · simp [e] at hpc
    · simp [e, settled.pc_eq, hpc'] at hpc
    · simp [e] at hpc
  · simp at hpc
  · simp at hpc
  · simp only [PC.waiting.injEq] at hpc
    simp [← hpc.2] at hwr
  · simp only [PC.waiting.injEq] at hpc
    rw [← hpc.2] at hwr
    rcases List.mem_append.mp hwr with hold | hnew
    · exact .inr ⟨_, _, hpc', hold⟩
    · obtain rfl := List.mem_singleton.mp hnew
      exact .inl rfl
  · simp only [PC.waiting.injEq] at hpc
    rw [← hpc.2] at hwr
    exact .inr ⟨_, _, hpc', List.mem_cons_of_mem _ hwr⟩
  · simp at hpc
  · simp at hpc

theorem Reported.step {past : List Act} {a : Act} (h : Reported past s)
    (running : Running req allowed s) (hs : step req s a = some t) : Reported (past ++ [a]) t := by
  have old : ∀ {b}, b ∈ past → b ∈ past ++ [a] := List.mem_append_left _
  refine ⟨?_, ?_, ?_, ?_, ?_⟩
  · intro id err hmem
    rcases List.mem_append.mp hmem with hmem | hnew
    · rcases h.dispatchErr id err hmem with held | ⟨o, ho, hfailed⟩
      · exact heldError_step hs held
      · exact .inr ⟨o, outcome_kept running hs ho, hfailed⟩
    · obtain rfl := List.mem_singleton.mp hnew
      have cases := step_cases hs
      simp only [reduceCtorEq, false_and, exists_false, false_or, or_false,
        Act.dispatchReturns.injEq] at cases
      obtain ⟨_, _, wave, slots, ⟨rfl, rfl⟩, _, _, hid, rfl⟩ := cases
      exact .inl ⟨wave, _, rfl, hid, Function.update_self ..⟩
  · intro id result hmem
    rcases List.mem_append.mp hmem with hmem | hnew
    · rcases h.waited id result hmem with held | ⟨o, ho, hstatus⟩
      · exact heldResult_step hs held
      · exact .inr ⟨o, outcome_kept running hs ho, hstatus⟩
    · obtain rfl := List.mem_singleton.mp hnew
      have cases := step_cases hs
      simp only [reduceCtorEq, false_and, exists_false, false_or, or_false,
        Act.waitReturns.injEq] at cases
      obtain ⟨_, _, _, pending, waitCh, ⟨rfl, rfl⟩, _, _, rfl⟩ := cases
      exact .inl ⟨_, _, rfl, by simp⟩
  · intro wave slots hpc id result hslot
    rcases slot_step running hs hpc hslot with rfl | ⟨_, _, hpc, hslot⟩
    · exact List.mem_append_right _ List.mem_cons_self
    · exact old (h.slots _ _ hpc id result hslot)
  · intro pending waitCh hpc wr hwr
    rcases channel_step running hs hpc hwr with rfl | ⟨_, _, hpc, hwr⟩
    · exact List.mem_append_right _ List.mem_cons_self
    · exact old (h.channel _ _ hpc wr hwr)
  · -- A new outcome that says "failed" was held by a goroutine or by the channel.
    intro id o ho hfailed
    rcases step_recorded running hs id with same | ⟨_, o', ho', recorded⟩
    · rw [same] at ho
      refine (h.failed id o ho hfailed).imp ?_ ?_
      · rintro ⟨err, herr⟩
        exact ⟨err, old herr⟩
      · rintro ⟨result, hresult, hstatus⟩
        exact ⟨result, old hresult, hstatus⟩
    · obtain rfl := Option.some.inj (ho.symm.trans ho')
      obtain ⟨_, _, err, hpc, hslot⟩ | ⟨_, _, result, hpc, hstatus⟩ := recorded.of_failed hfailed
      · exact .inl ⟨err, old (h.slots _ _ hpc id _ hslot)⟩
      · exact .inr ⟨result, old (h.channel _ _ hpc _ List.mem_cons_self), hstatus⟩

/-! ## Runs -/

theorem reported {order : req.MapOrder} {d : DAG} (valid : req.validate order = .ok d)
    {acts : List Act} (h : run (step req) (start d) acts = some s) : Reported acts s := by
  obtain ⟨_, tracks, empty⟩ := validate_ok valid
  have both : Inv req (fun _ _ => True) s ∧ Reported acts s := by
    refine run_history (fun past s => Inv req (fun _ _ => True) s ∧ Reported past s) ?_ h
      ⟨.inl ⟨.start tracks empty, by simp [Scheduler.start]⟩, .start d⟩
    rintro past s a t ⟨inv, hreported⟩ hs
    refine ⟨inv.step a.obeys_any hs, ?_⟩
    obtain ⟨running, _⟩ | ⟨u, _, _, rfl⟩ := inv
    · exact hreported.step running hs
    · rw [step_returned rfl] at hs
      cases hs
  exact both.2

/-- One of the two calls made for a task returned the error. -/
def Errs (acts : List Act) (id : String) (err : GoError) : Prop :=
  .dispatchReturns id (.error err) ∈ acts ∨ .waitReturns id (.error err) ∈ acts

/-- Cancellation is reported as such: an error of the context ends in "canceled", and "failed" is
left to other errors and to failed results. -/
structure CancellationReported (acts : List Act) (s : State) : Prop where
  canceled : ∀ id err, Errs acts id err → err.isCanceled →
    ∃ o, s.outcomes id = some o ∧ o.status = "canceled"
  failed : ∀ id o, s.outcomes id = some o → o.status = "failed" →
    (∃ err, Errs acts id err ∧ ¬ err.isCanceled) ∨
      ∃ result, .waitReturns id (.ok result) ∈ acts ∧ result.status = .failed

theorem outcomeStatus_eq_failed {state : TaskState} (h : outcomeStatus state = "failed") :
    state = .failed := by
  cases state with
  | unknown name other =>
    obtain rfl : name = "failed" := h
    exact absurd other (by decide)
  | failed => rfl
  | _ => simp [outcomeStatus, TaskState.name] at h

/-- A wait recorded as failed returned another error or a failed result. -/
theorem waitStatus_eq_failed {result : Except GoError TaskResult}
    (h : waitStatus result = "failed") :
    (∃ err, result = .error err ∧ ¬ err.isCanceled) ∨
      ∃ r, result = .ok r ∧ r.status = .failed := by
  cases result with
  | error err =>
    refine .inl ⟨err, rfl, fun hcanceled => ?_⟩
    simp [waitStatus, hcanceled] at h
  | ok r => exact .inr ⟨r, rfl, outcomeStatus_eq_failed h⟩

/-- A returned call reports cancellation as such exactly when the context ended no `Dispatch`: the
error of a `WaitFor` is classified, the error of a `Dispatch` is "failed" whatever it wraps. -/
theorem cancellation_reported_iff {order : req.MapOrder} {d : DAG}
    (valid : req.validate order = .ok d) {acts : List Act}
    (h : run (step req) (start d) acts = some s) {ctxErr : Option CtxErr}
    (returned : s.pc = .returned ctxErr) :
    CancellationReported acts s ↔
      ∀ id err, .dispatchReturns id (.error err) ∈ acts → ¬ err.isCanceled := by
  have rep := reported valid h
  have dispatchErr : ∀ id err, .dispatchReturns id (.error err) ∈ acts →
      ∃ o, s.outcomes id = some o ∧ o.status = "failed" := by
    intro id err hmem
    rcases rep.dispatchErr id err hmem with ⟨_, _, hpc, _⟩ | done
    · simp [returned] at hpc
    · exact done
  constructor
  · intro right id err hmem hcanceled
    obtain ⟨o, ho, hfailed⟩ := dispatchErr id err hmem
    obtain ⟨o', ho', hstatus⟩ := right.canceled id err (.inl hmem) hcanceled
    obtain rfl := Option.some.inj (ho.symm.trans ho')
    simp [hfailed] at hstatus
  · intro uncanceled
    refine ⟨?_, ?_⟩
    · rintro id err (hmem | hmem) hcanceled
      · exact absurd hcanceled (uncanceled id err hmem)
      · rcases rep.waited id (.error err) hmem with ⟨_, _, hpc, _⟩ | ⟨o, ho, hstatus⟩
        · simp [returned] at hpc
        · exact ⟨o, ho, by simpa [waitStatus, hcanceled] using hstatus⟩
    · intro id o ho hfailed
      rcases rep.failed id o ho hfailed with ⟨err, herr⟩ | ⟨result, hresult, hstatus⟩
      · exact .inl ⟨err, .inl herr, uncanceled id err herr⟩
      · obtain ⟨err, rfl, hother⟩ | ⟨r, rfl, hr⟩ := waitStatus_eq_failed hstatus
        · exact .inl ⟨err, .inr hresult, hother⟩
        · exact .inr ⟨r, hresult, hr⟩

theorem cancellation_reported_iff_chain :
    ∃ d s, chain.validate chainOrder = .ok d ∧
      run (step chain) (start d) chainCancelled = some s ∧
      s.pc = .returned (some .canceled) ∧ CancellationReported chainCancelled s := by
  obtain ⟨d, s, valid, hs, hpc⟩ := chainCancelled_returns
  refine ⟨d, s, valid, hs, hpc, (cancellation_reported_iff valid hs hpc).mpr ?_⟩
  simp [chainCancelled]

/-- The deadline passes while the first task is being published. -/
def publishTimesOut : GoError :=
  .wrap "dispatch: publish task a to agents.a" CtxErr.deadlineExceeded.toError

/-- The context is done during the first `Dispatch`; the other tasks are skipped in two rounds. -/
def chainTimedOut : List Act := [
  .round, .callDispatch "a", .cancel .deadlineExceeded,
  .dispatchReturns "a" (.error publishTimesOut), .spawnWaits, .endWave, .round, .round, .round,
  .ret]

/-- A task whose `Dispatch` ran into the deadline of the context is reported as failed. -/
theorem dispatch_timeout_reported_failed :
    ∃ d s o, chain.validate chainOrder = .ok d ∧
      run (step chain) (start d) chainTimedOut = some s ∧
      s.pc = .returned (some .deadlineExceeded) ∧
      s.outcomes "a" = some o ∧ o.status = "failed" ∧ o.error = some publishTimesOut ∧
      publishTimesOut.isCanceled ∧ ¬ CancellationReported chainTimedOut s := by
  have values : ((chain.validate chainOrder).toOption.bind fun d =>
      (run (step chain) (start d) chainTimedOut).bind fun s =>
        s.pc.result.bind fun err => (s.outcomes "a").map fun o => (err, o.status, o.error)) =
      some (some .deadlineExceeded, "failed", some publishTimesOut) := by
    decide
  obtain ⟨d, hd, h⟩ := Option.bind_eq_some_iff.mp values
  obtain ⟨s, hs, h⟩ := Option.bind_eq_some_iff.mp h
  obtain ⟨err, herr, h⟩ := Option.bind_eq_some_iff.mp h
  obtain ⟨o, ho, h⟩ := Option.map_eq_some_iff.mp h
  obtain ⟨rfl, hstatus, herror⟩ : err = some .deadlineExceeded ∧ o.status = "failed" ∧
      o.error = some publishTimesOut := by simpa using h
  refine ⟨d, s, o, toOption_eq_some.mp hd, hs, PC.result_eq_some.mp herr, ho, hstatus, herror, rfl,
    fun right => ?_⟩
  obtain ⟨o', ho', hcanceled⟩ := right.canceled "a" publishTimesOut
    (.inl (by simp [chainTimedOut])) rfl
  obtain rfl := Option.some.inj (ho.symm.trans ho')
  simp [hstatus] at hcanceled

end Daedalus.Scheduler
