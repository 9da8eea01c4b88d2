import Daedalus.Orchestrator.Safety
import Daedalus.Proxy.Delivery

/-!
# The payload of a completed task

A successful `Handle` publishes the task on its result subject and then a completed status. The
collector receives the two on independent subscriptions. `handleStatus` builds a result without a
task when it finds nothing stored, so that callers are not blocked for good; a call that is
served in between returns without the task (`status_first`). All the others return the task that
was published.
-/
namespace Daedalus.Pipeline

open Foundation A2A Orchestrator Proxy Prog

/-! ## From the handler to the collector -/

/-- One of the executions sent this payload on the subject. -/
def Sent (traces : List Trace) (subject : String) (payload : Payload) : Prop :=
  ∃ es ∈ traces, ∃ pub ∈ publications es, pub.1 = subject ∧ pub.2.1 = payload ∧ pub.2.2.sent

instance (traces : List Trace) (subject : String) (payload : Payload) :
    Decidable (Sent traces subject payload) :=
  inferInstanceAs (Decidable (∃ es ∈ traces, ∃ pub ∈ publications es, _))

/-- A message that the collector takes for the task `id` was sent by one of the executions.
Messages for other tasks are arbitrary. -/
def Fed (traces : List Trace) (id : String) : Orchestrator.Act → Prop
  | .handleResult msg => ∀ r ∈ receiveResult msg, r.taskID = id →
    ∃ task ∈ msg.data, Sent traces msg.subject (.task task)
  | .handleStatus msg => ∀ r ∈ receiveStatus msg, r.taskID = id →
    ∃ status ∈ msg.data, Sent traces msg.subject (.status status)
  | _ => True

instance Fed.decidable (traces : List Trace) (id : String) : ∀ a, Decidable (Fed traces id a)
  | .handleResult msg => inferInstanceAs (Decidable (∀ r ∈ receiveResult msg, _))
  | .handleStatus msg => inferInstanceAs (Decidable (∀ r ∈ receiveStatus msg, _))
  | .waitFor _ | .receive _ | .ctxDone _ _ | .cleanUp _ | .storeStatus _ => isTrue trivial

/-! ## Result first or status first -/

/-- The result message of the task has been handled. -/
def ResultHandled (id : String) (acts : List Orchestrator.Act) : Prop :=
  ∃ msg tr, .handleResult msg ∈ acts ∧ receiveResult msg = some tr ∧ tr.taskID = id

/-- A terminal status of the task was checked before its result was handled. -/
def EarlyStatus (id : String) (acts : List Orchestrator.Act) : Prop :=
  ∃ earlier msg later tr, acts = earlier ++ .handleStatus msg :: later ∧
    receiveStatus msg = some tr ∧ tr.taskID = id ∧ ¬ ResultHandled id earlier

theorem EarlyStatus.mono {id : String} {acts : List Orchestrator.Act} (h : EarlyStatus id acts)
    (a : Orchestrator.Act) : EarlyStatus id (acts ++ [a]) := by
  obtain ⟨earlier, msg, later, tr, rfl, hmsg⟩ := h
  exact ⟨earlier, msg, later ++ [a], tr, by simp, hmsg⟩

section Collector

variable {id : String} {acts : List Orchestrator.Act} {s : Collector}

/-- Once the result message is handled, the collector holds a task, and keeps it. -/
theorem stored_of_resultHandled (h : run Orchestrator.step .new acts = some s)
    (handled : ResultHandled id acts) : ∃ r, s.results id = some r ∧ r.task.isSome := by
  have none : ¬ ResultHandled id [] := by
    rintro ⟨_, _, hmem, _⟩
    cases hmem
  refine run_history (fun past s => ResultHandled id past →
    ∃ r, s.results id = some r ∧ r.task.isSome) ?_ h (fun hnil => absurd hnil none) handled
  rintro past s a t ih hstep ⟨msg, tr, hmem, hmsg, hid⟩
  rcases List.mem_append.mp hmem with hold | hnew
  · obtain ⟨r, hr, full⟩ := ih ⟨msg, tr, hold, hmsg, hid⟩
    exact ⟨r, results_kept hstep hr full, full⟩
  · obtain rfl := List.mem_singleton.mp hnew
    simp only [Orchestrator.step, hmsg, Option.some.injEq] at hstep
    subst hstep hid
    exact storeAndNotify_full s (receiveResult_full hmsg)

/-- A status that finds a result stored leaves the collector as it is. -/
theorem handleStatus_idle {t : Collector} {msg : Msg TaskStatus} {tr : TaskResult}
    (hs : Orchestrator.step s (.handleStatus msg) = some t) (hmsg : receiveStatus msg = some tr)
    (stored : (s.results tr.taskID).isSome) : t = s := by
  simpa [Orchestrator.step, hmsg, stored] using hs.symm

/-- Without an early status, everything the collector has for the task is complete. -/
theorem full_of_not_early (h : run Orchestrator.step .new acts = some s)
    (late : ¬ EarlyStatus id acts) : Holds (fun r => r.taskID = id → r.task.isSome) s := by
  refine (run_history (fun past s => run Orchestrator.step .new past = some s ∧
    (¬ EarlyStatus id past → Holds (fun r => r.taskID = id → r.task.isSome) s)) ?_ h
    ⟨rfl, fun _ => .new⟩).2 late
  rintro past s a t ⟨hrun, ih⟩ hstep
  refine ⟨run_snoc.mpr ⟨s, hrun, hstep⟩, fun late => ?_⟩
  have holds := ih fun early => late (early.mono a)
  have inv : Inv s := Inv.new.run hrun
  cases a with
  | handleResult msg =>
    refine holds.step inv (fun r hr _ => ?_) hstep
    exact receiveResult_full (show receiveResult msg = some r from hr)
  | handleStatus msg =>
    by_cases own : ∃ tr, receiveStatus msg = some tr ∧ tr.taskID = id
    · obtain ⟨tr, hmsg, hid⟩ := own
      have handled : ResultHandled id past := by
        by_contra hnot
        exact late ⟨past, msg, [], tr, rfl, hmsg, hid, hnot⟩
      obtain ⟨r, hr, _⟩ := stored_of_resultHandled hrun handled
      rw [handleStatus_idle hstep hmsg (by simp [hid, hr])]
      exact holds
    · exact holds.step inv (fun r hr hid => absurd ⟨r, hr, hid⟩ own) hstep
  | waitFor | receive | ctxDone | cleanUp | storeStatus =>
    exact holds.step inv (fun r hr => by simp [Act.builds] at hr) hstep

end Collector

/-! ## What the calls return -/

/-- The task a call was made for and what it returned, unless it failed or is in progress. -/
def returnedBy (s : Collector) (c : ℕ) : Option (String × TaskResult) :=
  match s.calls c with
  | some ⟨id, .returned (.ok r)⟩ => some (id, r)
  | _ => none

theorem returnedBy_eq_some {s : Collector} {c : ℕ} {id : String} {r : TaskResult} :
    returnedBy s c = some (id, r) ↔ s.calls c = some ⟨id, .returned (.ok r)⟩ := by
  unfold returnedBy
  split
  · rename_i id' r' hcall
    simp [hcall]
  · rename_i hnone
    simp only [reduceCtorEq, false_iff]
    exact hnone id r

/-- What calls for a completed task get in a state reached by `acts`. -/
structure Delivered (id : String) (task : Task) (acts : List Orchestrator.Act) (s : Collector) :
    Prop where
  /-- A call that returns without error says completed, and has the published task or none. -/
  completed : ∀ c r, s.calls c = some ⟨id, .returned (.ok r)⟩ →
    r.status = .completed ∧ (r.task = some task ∨ r.task = none)
  /-- It has none only when the status was checked before the result was handled. -/
  bare : ∀ c r, s.calls c = some ⟨id, .returned (.ok r)⟩ → r.task = none → EarlyStatus id acts
  /-- A call that begins when the result has been handled returns the task. -/
  full : ResultHandled id acts →
    ∃ r, (s.waitFor id).calls s.next = some ⟨id, .returned (.ok r)⟩ ∧ r.task = some task

section Success

variable {cfg : Config} {req : SendMessageRequest} {es : Trace}

/-- What a successful execution sends. -/
theorem sent_of_success (hp : cfg.publisher)
    (h : replay (handle cfg (.ok req)) es = some (.ok ())) :
    ∃ task, task.status.state = .completed ∧
      resultPub (chooseTaskID req) task .acked ∈ publications es ∧
      (∀ subject task', Sent [es] subject (.task task') → task' = task) ∧
      ∀ subject status, Sent [es] subject (.status status) →
        status.state = .working ∨ status.state = .completed := by
  cases handle_exit hp h with
  | ended t p let_in published ending =>
    cases ending with
    | done text content t' t'' metadata q =>
      refine ⟨buildTask (chooseTaskID req) req.message.contextID content t' metadata, rfl,
        by simp [published], ?_, ?_⟩
      · rintro subject task' ⟨_, hes, pub, hpub, -, hpayload, -⟩
        rw [List.mem_singleton.mp hes, published] at hpub
        fin_cases hpub <;> cases hpayload
        rfl
      · rintro subject status ⟨_, hes, pub, hpub, -, hpayload, -⟩
        rw [List.mem_singleton.mp hes, published] at hpub
        fin_cases hpub <;> cases hpayload
        · exact .inl rfl
        · exact .inr rfl

/-- For every task that `Handle` finishes successfully there is the task it published, and
whatever the order in which the collector handles the messages, the calls for the task get that
task, except for those served by a status that came first. -/
theorem completed_payload (hp : cfg.publisher)
    (h : replay (handle cfg (.ok req)) es = some (.ok ())) :
    ∃ task, resultPub (chooseTaskID req) task .acked ∈ publications es ∧
      ∀ acts s, (∀ a ∈ acts, Fed [es] (chooseTaskID req) a) →
        run Orchestrator.step .new acts = some s → Delivered (chooseTaskID req) task acts s := by
  obtain ⟨task, hstate, published, results, statuses⟩ := sent_of_success hp h
  refine ⟨task, published, fun acts s fed hrun => ?_⟩
  have holds : Holds (fun r => r.taskID = chooseTaskID req →
      r.status = .completed ∧ (r.task = some task ∨ r.task = none)) s := by
    refine (Meets.invariant (fun s => Inv s ∧ Holds _ s) ?_ (Meets.of_forall fed) hrun
      ⟨.new, .new⟩).2
    rintro s a t ⟨inv, holds⟩ hfed hstep
    refine ⟨inv.step hstep, holds.step inv (fun r hr hid => ?_) hstep⟩
    cases a with
    | handleResult msg =>
      obtain ⟨task', hdata, sent⟩ := hfed r hr hid
      obtain ⟨hstatus, htask, -⟩ := receiveResult_spec hdata hr
      obtain rfl := results _ _ sent
      exact ⟨hstatus.trans hstate, .inl htask⟩
    | handleStatus msg =>
      obtain ⟨status, hdata, sent⟩ := hfed r hr hid
      obtain ⟨terminal, rfl⟩ := receiveStatus_spec hdata hr
      rcases statuses _ _ sent with working | completed
      · simp [working, isTerminal] at terminal
      · exact ⟨completed, .inr rfl⟩
    | waitFor | receive | ctxDone | cleanUp | storeStatus => simp [Act.builds] at hr
  constructor
  · intro c r hret
    obtain ⟨hid, hr⟩ := holds.returned c _ r hret
    exact hr hid
  · intro c r hret hnone
    by_contra late
    obtain ⟨hid, full⟩ := (full_of_not_early hrun late).returned c _ r hret
    simp [hnone, hid] at full
  · intro handled
    obtain ⟨r, hr, full⟩ := stored_of_resultHandled hrun handled
    obtain ⟨hid, hr'⟩ := holds.results _ r hr
    refine ⟨r, by simp [Collector.waitFor, hr], ?_⟩
    rcases (hr' hid).2 with htask | hnone
    · exact htask
    · simp [hnone] at full

end Success

/-- The task that `answered` publishes. -/
def answer : Task := buildTask "t" "" "hello" "2" []

/-- The messages of `answered` as the collector sees them. -/
def answerMsg : Msg Task := ⟨"agent.results.t", some answer, 0⟩

def completedMsg : Msg TaskStatus :=
  ⟨"agent.status.t", some
    { state := .completed, message := some (resultMessage "t" "hello"), timestamp := "3" }, 1⟩

/-- The status overtakes the result: the waiting call is served by it, a later one is not. -/
def overtaking : List Orchestrator.Act := [
  .waitFor "t", .handleStatus completedMsg, .storeStatus ⟨"t", .completed, none, 1⟩, .receive 0,
  .handleResult answerMsg, .waitFor "t"]

theorem completed_payload_overtaking :
    ∃ task s, run Orchestrator.step .new overtaking = some s ∧ Delivered "t" task overtaking s := by
  have success : replay (handle {} (.ok question)) (answered .acked completedStatus) =
      some (.ok ()) := by decide
  have enabled : (run Orchestrator.step .new overtaking).isSome = true := by decide
  obtain ⟨s, hs⟩ := Option.isSome_iff_exists.mp enabled
  obtain ⟨task, -, delivered⟩ := completed_payload rfl success
  exact ⟨task, s, hs, delivered overtaking s (by decide) hs⟩

/-- `Handle` succeeds and publishes the task, and yet a call returns without one. -/
theorem status_first :
    replay (handle {} (.ok question)) (answered .acked completedStatus) = some (.ok ()) ∧
    resultPub "t" answer .acked ∈ publications (answered .acked completedStatus) ∧
    (∀ a ∈ overtaking, Fed [answered .acked completedStatus] "t" a) ∧
    ∃ s r, run Orchestrator.step .new overtaking = some s ∧
      s.calls 0 = some ⟨"t", .returned (.ok r)⟩ ∧ r.task = none := by
  refine ⟨by decide, by decide, by decide, ?_⟩
  have observed : (run Orchestrator.step .new overtaking).bind (returnedBy · 0) =
      some ("t", ⟨"t", .completed, none, 1⟩) := by decide
  obtain ⟨s, hs, hret⟩ := Option.bind_eq_some_iff.mp observed
  exact ⟨s, _, hs, returnedBy_eq_some.mp hret, rfl⟩

end Daedalus.Pipeline
