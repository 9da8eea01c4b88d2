import Daedalus.Orchestrator.Slots
import Daedalus.Orchestrator.WaitForAll

/-!
# From a fan-out to its results

A caller fans out tasks and waits for the IDs of those that were dispatched. The collector knows
tasks by their IDs only, so this gives every task its own result as long as the IDs are different.
`FanOut` takes the IDs of the caller as they are, and `Validate` does not compare them.
-/
namespace Daedalus.Orchestrator.FanOut

open A2A Dispatch Foundation

/-- The IDs of the tasks that were dispatched, in the order of the slots. -/
def FanOutResult.taskIDs (result : FanOutResult) : List String :=
  (result.tasks.filter (·.error.isNone)).map (·.taskID)

/-! ## One message per task -/

/-- The result message for a task: the ID is in its subject and in the task it carries. -/
def Answers (id : String) (msg : Msg Task) : Prop :=
  msg.subject = "agent.results." ++ id ∧ ∃ task, msg.data = some task ∧ task.id = id

theorem Answers.received {id : String} {msg : Msg Task} (h : Answers id msg) (named : id ≠ "") :
    ∃ r, receiveResult msg = some r ∧ r.taskID = id := by
  obtain ⟨hsubject, task, hdata, rfl⟩ := h
  refine ⟨_, by
    simp only [receiveResult, hsubject, extractSuffix_append, named, hdata, if_false]; rfl, ?_⟩
  simp [named]

/-- There is one message for every ID, at the same position. -/
structure OneEach (taskIDs : List String) (messages : List (Msg Task)) : Prop where
  length : messages.length = taskIDs.length
  answers : ∀ (i : ℕ) id msg, taskIDs[i]? = some id → messages[i]? = some msg → Answers id msg

/-- The call is not cancelled, and what reaches the collector for one of the IDs is a message of the
list. -/
structure Fed (taskIDs : List String) (messages : List (Msg Task)) (acts : List WaitForAll.Act) :
    Prop where
  uncancelled : ∀ c err, .collector (.ctxDone c err) ∉ acts
  messages : ∀ a r, .collector a ∈ acts → a.builds = some r → r.taskID ∈ taskIDs →
    ∃ msg ∈ messages, a = .handleResult msg

/-- A `WaitForAll` over the IDs, one message per ID. -/
structure OwnResults (taskIDs : List String) (messages : List (Msg Task))
    (acts : List WaitForAll.Act) (w : WaitForAll.State) : Prop where
  /-- The call goes on until it has returned, if no message is missing, -/
  proceeds : w.returned = false → (∃ a t, a.own = true ∧ WaitForAll.step taskIDs w a = some t) ∨
    ∃ msg ∈ messages, .collector (.handleResult msg) ∉ acts
  /-- in a bounded number of steps. -/
  bounded : acts.countP WaitForAll.Act.own ≤ 6 * taskIDs.length + 1
  /-- It returns for every ID what was built from the message for it, -/
  own : w.returned = true → w.firstErr = none ∧ ∀ (i : ℕ) id msg, taskIDs[i]? = some id →
    messages[i]? = some msg → ∃ r, receiveResult msg = some r ∧ w.out id = some r
  /-- and nothing else. -/
  only : ∀ id, w.out id ≠ none → id ∈ taskIDs

section OwnResults

variable {taskIDs : List String} {messages : List (Msg Task)} {acts : List WaitForAll.Act}
  {w : WaitForAll.State}

/-- A result message that was handled leaves a result for good. -/
theorem stored_of_handled (h : run (WaitForAll.step taskIDs) {} acts = some w) {msg : Msg Task}
    {tr : TaskResult} (built : receiveResult msg = some tr)
    (handled : .collector (.handleResult msg) ∈ acts) : w.collector.results tr.taskID ≠ none := by
  have kept : ∃ r, w.collector.results tr.taskID = some r ∧ r.task.isSome := by
    refine run_history (fun past w => .collector (.handleResult msg) ∈ past →
      ∃ r, w.collector.results tr.taskID = some r ∧ r.task.isSome) ?_ h (by simp) handled
    intro past w a v ih hs hmem
    rcases List.mem_append.mp hmem with hpast | hnow
    · obtain ⟨r, hr, full⟩ := ih hpast
      rcases WaitForAll.collector_step hs with ⟨b, hmove, -⟩ | ⟨same, -⟩
      · exact ⟨r, results_kept hmove hr full, full⟩
      · exact ⟨r, same ▸ hr, full⟩
    · obtain rfl := List.mem_singleton.mp hnow
      rcases WaitForAll.collector_step hs with ⟨b, hmove, hb⟩ | ⟨-, other⟩
      · obtain rfl := hb _ rfl
        simp only [Orchestrator.step, built, Option.some.injEq] at hmove
        rw [← hmove]
        exact storeAndNotify_full w.collector (receiveResult_full built)
      · exact absurd rfl (other _)
  obtain ⟨r, hr, -⟩ := kept
  simp [hr]

/-- With different IDs, every task gets its own result. -/
theorem own_results (h : run (WaitForAll.step taskIDs) {} acts = some w)
    (distinct : taskIDs.Nodup) (named : ∀ id ∈ taskIDs, id ≠ "")
    (each : OneEach taskIDs messages) (fed : Fed taskIDs messages acts) :
    OwnResults taskIDs messages acts w := by
  have gathered := WaitForAll.gathers h fed.uncancelled
  refine ⟨fun live => ?_, gathered.bounded, fun hreturned => ?_, gathered.only⟩
  · refine (gathered.proceeds live).imp_right ?_
    rintro ⟨id, hid, hnone⟩
    obtain ⟨i, hi⟩ := List.getElem?_of_mem hid
    obtain ⟨msg, hmsg⟩ : ∃ msg, messages[i]? = some msg := by
      have := (List.getElem?_eq_some_iff.mp hi).1
      exact ⟨_, List.getElem?_eq_getElem (each.length ▸ this)⟩
    obtain ⟨r, hr, rfl⟩ := (each.answers i id msg hi hmsg).received (named id hid)
    refine ⟨msg, List.mem_of_getElem? hmsg, fun handled => ?_⟩
    exact stored_of_handled h hr handled hnone
  · obtain ⟨herr, results⟩ := gathered.results hreturned
    refine ⟨herr, fun i id msg hid hmsg => ?_⟩
    have hmem := List.mem_of_getElem? hid
    obtain ⟨r, hout, rfl, a, ha, hbuilds⟩ := results id hmem
    -- The message it was built from is that of some position, which the ID determines.
    obtain ⟨msg', hmsg', rfl⟩ := fed.messages a r ha hbuilds hmem
    obtain ⟨j, hj⟩ := List.getElem?_of_mem hmsg'
    obtain ⟨id', hid'⟩ : ∃ id', taskIDs[j]? = some id' := by
      have := (List.getElem?_eq_some_iff.mp hj).1
      exact ⟨_, List.getElem?_eq_getElem (each.length ▸ this)⟩
    obtain ⟨r', hr', hname⟩ := (each.answers j id' msg' hid' hj).received
      (named id' (List.mem_of_getElem? hid'))
    obtain rfl : r = r' := Option.some.inj (hbuilds.symm.trans hr')
    obtain rfl : i = j := by
      rw [← List.getElem?_inj (List.getElem?_eq_some_iff.mp hid).1 distinct, hid, hid', hname]
    obtain rfl : msg = msg' := Option.some.inj (hmsg.symm.trans hj)
    exact ⟨r, hr', hout⟩

end OwnResults

/-! ## The IDs of a fan-out -/

/-- The IDs that the caller gave are different. -/
def FanOutRequest.GivenDistinct (req : FanOutRequest) : Prop :=
  ((req.tasks.filter (·.id ≠ "")).map (·.id)).Nodup

instance (req : FanOutRequest) : Decidable req.GivenDistinct :=
  inferInstanceAs (Decidable (List.Nodup _))

/-- Every outcome is one that the dispatcher can return for the task. -/
def ByDispatcher (req : FanOutRequest) (acts : List Act) : Prop :=
  ∀ (i : ℕ) spec outcome now, req.tasks[i]? = some spec → .dispatchReturns i outcome now ∈ acts →
    ∃ env, outcome = (dispatch env spec req.contextID).2

/-- A generated ID is not the ID of another task. -/
def GeneratedUnique (req : FanOutRequest) (acts : List Act) : Prop :=
  ∀ (i j : ℕ) spec id id' subject subject' now now', i ≠ j →
    req.tasks[i]? = some spec → spec.id = "" →
    .dispatchReturns i (.ok (id, subject)) now ∈ acts →
    .dispatchReturns j (.ok (id', subject')) now' ∈ acts → id ≠ id'

/-- The dispatched tasks have different IDs, and a `WaitForAll` over these returns each task its own
result. -/
structure Distinguishable (result : FanOutResult) : Prop where
  distinct : result.taskIDs.Nodup
  gathered : ∀ messages, OneEach result.taskIDs messages → ∀ acts w,
    run (WaitForAll.step result.taskIDs) {} acts = some w → Fed result.taskIDs messages acts →
    OwnResults result.taskIDs messages acts w

/-- What is selected from a list is different if it is at any two positions. -/
theorem nodup_map_filter_iff {α β : Type*} {p : α → Bool} {f : α → β} {l : List α} :
    ((l.filter p).map f).Nodup ↔ ∀ (i j : ℕ) a b, i < j → l[i]? = some a → l[j]? = some b →
      p a = true → p b = true → f a ≠ f b := by
  rw [List.Nodup, List.pairwise_map, List.pairwise_filter, List.pairwise_iff_getElem]
  constructor
  · intro h i j a b hij ha hb
    obtain ⟨hi, rfl⟩ := List.getElem?_eq_some_iff.mp ha
    obtain ⟨hj, rfl⟩ := List.getElem?_eq_some_iff.mp hb
    exact h i j hi hj hij
  · intro h i j hi hj hij
    exact h i j _ _ hij (List.getElem?_eq_getElem hi) (List.getElem?_eq_getElem hj)

section IDs

theorem prepare_spec {hex : Except GoError String} {req prepared : FanOutRequest}
    (h : prepare hex req = .ok prepared) :
    prepared.tasks = req.tasks ∧ prepared.contextID ≠ "" := by
  obtain ⟨_, -, h⟩ := bind_eq_ok.mp h
  split_ifs at h with given
  · cases hex with
    | error err => simp [generateContextID] at h
    | ok digits =>
      cases h
      exact ⟨rfl, by simp⟩
  · cases h
    exact ⟨rfl, given⟩

/-- The ID of a dispatched task is the one given, or generated and not empty. -/
theorem dispatch_id {env : DispatchEnv} {spec : TaskSpec} {contextID id subject : String}
    (context : contextID ≠ "") (h : (dispatch env spec contextID).2 = .ok (id, subject)) :
    id ≠ "" ∧ (spec.id ≠ "" → id = spec.id) := by
  refine ⟨?_, fun given => dispatch_keeps_id given h⟩
  have chosen := (dispatch_ok h).1
  unfold chooseID at chosen
  split_ifs at chosen with missing
  · cases hgen : env.generateID with
    | error err => simp [hgen] at chosen
    | ok suffix =>
      simp only [hgen, Except.ok.injEq] at chosen
      simp [← chosen, context]
  · cases chosen
    exact missing

variable {req : FanOutRequest} {now : ℕ} {acts : List Act} {s : State} {err : Option GoError}

/-- A slot without an error is that of a task which was dispatched under its ID. -/
theorem dispatched_slot (h : run (step req) (start req now) acts = some s)
    (returned : s.pc = .returned err) (dispatched : ByDispatcher req acts)
    (context : req.contextID ≠ "") {i : ℕ} {slot : Slot} (hslot : s.result.tasks[i]? = some slot)
    (ok : slot.error.isNone = true) :
    ∃ spec subject now, req.tasks[i]? = some spec ∧
      .dispatchReturns i (.ok (slot.taskID, subject)) now ∈ acts ∧
      slot.taskID ≠ "" ∧ (spec.id ≠ "" → slot.taskID = spec.id) := by
  obtain ⟨spec, outcome, dispatchedAt, completedAt, hspec, ha, rfl⟩ :=
    (own_slots h).outcome_of_slot returned hslot
  cases outcome with
  | error err => simp [Slot.of] at ok
  | ok answer =>
    obtain ⟨id, subject⟩ := answer
    obtain ⟨env, henv⟩ := dispatched i spec _ completedAt hspec ha
    exact ⟨spec, subject, completedAt, hspec, ha, dispatch_id context henv.symm⟩

theorem taskIDs_nodup (h : run (step req) (start req now) acts = some s)
    (returned : s.pc = .returned err) (dispatched : ByDispatcher req acts)
    (unique : GeneratedUnique req acts) (context : req.contextID ≠ "")
    (given : req.GivenDistinct) : s.result.taskIDs.Nodup := by
  refine nodup_map_filter_iff.mpr fun i j slot slot' hij hslot hslot' ok ok' => ?_
  obtain ⟨spec, subject, at₁, hspec, ha, -, hid⟩ :=
    dispatched_slot h returned dispatched context hslot ok
  obtain ⟨spec', subject', at₂, hspec', ha', -, hid'⟩ :=
    dispatched_slot h returned dispatched context hslot' ok'
  by_cases hgen : spec.id = ""
  · exact unique i j spec _ _ _ _ _ _ hij.ne hspec hgen ha ha'
  by_cases hgen' : spec'.id = ""
  · exact (unique j i spec' _ _ _ _ _ _ hij.ne' hspec' hgen' ha' ha).symm
  rw [hid hgen, hid' hgen']
  exact nodup_map_filter_iff.mp given i j spec spec' hij hspec hspec' (by simpa using hgen)
    (by simpa using hgen')

/-- Tasks that were dispatched under one ID give their ID away. -/
theorem given_of_taskIDs_nodup (h : run (step req) (start req now) acts = some s)
    (returned : s.pc = .returned err) (dispatched : ByDispatcher req acts)
    (context : req.contextID ≠ "")
    (all : ∀ i outcome now, .dispatchReturns i outcome now ∈ acts → ∃ answer, outcome = .ok answer)
    (distinct : s.result.taskIDs.Nodup) : req.GivenDistinct := by
  refine nodup_map_filter_iff.mpr fun i j spec spec' hij hspec hspec' given given' => ?_
  have slots : ∀ (k : ℕ) spec, req.tasks[k]? = some spec → spec.id ≠ "" →
      ∃ slot, s.result.tasks[k]? = some slot ∧ slot.error.isNone = true ∧
        slot.taskID = spec.id := by
    intro k spec hspec given
    obtain ⟨slot, hslot⟩ : ∃ slot, s.result.tasks[k]? = some slot := by
      have hk := (List.getElem?_eq_some_iff.mp hspec).1
      rw [← ((own_slots h).calls err returned).2.2] at hk
      exact ⟨_, List.getElem?_eq_getElem hk⟩
    obtain ⟨spec', outcome, dispatchedAt, completedAt, hspec', ha, rfl⟩ :=
      (own_slots h).outcome_of_slot returned hslot
    obtain ⟨answer, rfl⟩ := all k outcome completedAt ha
    obtain rfl := Option.some.inj (hspec.symm.trans hspec')
    obtain ⟨env, henv⟩ := dispatched k spec _ completedAt hspec ha
    exact ⟨_, hslot, rfl, (dispatch_id context henv.symm).2 given⟩
  obtain ⟨slot, hslot, ok, hid⟩ := slots i spec hspec (by simpa using given)
  obtain ⟨slot', hslot', ok', hid'⟩ := slots j spec' hspec' (by simpa using given')
  rw [← hid, ← hid']
  exact nodup_map_filter_iff.mp distinct i j slot slot' hij hslot hslot' ok ok'

end IDs

/-- The tasks of a fan-out can be told apart if the caller gave them different IDs, whatever the
dispatcher answers, in whatever order the goroutines and the messages come, and whether or not
the fan-out was cancelled. If every task was dispatched, this is the only case. -/
theorem fanned_out_distinguishable {hex : Except GoError String} {req prepared : FanOutRequest}
    (accepted : prepare hex req = .ok prepared) {now : ℕ} {acts : List Act} {s : State}
    (h : run (step prepared) (start prepared now) acts = some s) {err : Option GoError}
    (returned : s.pc = .returned err) (dispatched : ByDispatcher prepared acts)
    (unique : GeneratedUnique prepared acts) :
    (req.GivenDistinct → Distinguishable s.result) ∧
      ((∀ i outcome now, .dispatchReturns i outcome now ∈ acts → ∃ answer, outcome = .ok answer) →
        Distinguishable s.result → req.GivenDistinct) := by
  obtain ⟨htasks, context⟩ := prepare_spec accepted
  have same : prepared.GivenDistinct ↔ req.GivenDistinct := by
    rw [FanOutRequest.GivenDistinct, FanOutRequest.GivenDistinct, htasks]
  constructor
  · intro given
    have distinct := taskIDs_nodup h returned dispatched unique context (same.mpr given)
    refine ⟨distinct, fun messages each acts' w hw fed => own_results hw distinct ?_ each fed⟩
    intro id hid
    obtain ⟨slot, hslot, rfl⟩ := List.mem_map.mp hid
    obtain ⟨hmem, ok⟩ := List.mem_filter.mp hslot
    obtain ⟨i, hi⟩ := List.getElem?_of_mem hmem
    obtain ⟨_, _, _, _, _, named, _⟩ := dispatched_slot h returned dispatched context hi ok
    exact named
  · intro all distinguishable
    exact same.mp
      (given_of_taskIDs_nodup h returned dispatched context all distinguishable.distinct)

/-- Both tasks are dispatched, the second one first. -/
def bothDispatched (first second : String) : List Act := [
  .launch, .launch, .launched, .callDispatch 1 1, .callDispatch 0 2,
  .dispatchReturns 1 (.ok (second, "agent.tasks.coder")) 3, .send 1, .finish 1,
  .dispatchReturns 0 (.ok (first, "agent.tasks.coder")) 4, .send 0, .finish 0, .allDone,
  .selectDone, .collect, .collect, .ret 5]

/-- A dispatcher for which everything goes well. -/
def accepting : DispatchEnv where
  generateID := .ok "1f"
  routeByScore _ _ := .ok "agent.tasks.coder"
  publishJSON _ _ := none

/-- A result message for a task. -/
def resultMsg (id : String) (number : ℕ) : Msg Task where
  subject := "agent.results." ++ id
  data := some { id, status := { state := .completed } }
  number

/-- The second result comes before its `WaitFor`, the first one after. -/
def bothAnswered (first second : String) : List WaitForAll.Act := [
  .launch, .launch, .waitFor 0, .collector (.handleResult (resultMsg second 2)), .waitFor 1,
  .returns 1, .send 1, .receive, .collector (.handleResult (resultMsg first 1)), .wake 0,
  .returns 0, .send 0, .receive, .ret]

theorem returns_bothDispatched {first second : String} {i now : ℕ}
    {outcome : Except GoError (String × String)}
    (h : .dispatchReturns i outcome now ∈ bothDispatched first second) :
    (i = 0 ∧ outcome = .ok (first, "agent.tasks.coder")) ∨
      (i = 1 ∧ outcome = .ok (second, "agent.tasks.coder")) := by
  simp only [bothDispatched, List.mem_cons, Act.dispatchReturns.injEq, reduceCtorEq,
    List.not_mem_nil, false_or, or_false] at h
  rcases h with ⟨rfl, rfl, -⟩ | ⟨rfl, rfl, -⟩
  · exact .inr ⟨rfl, rfl⟩
  · exact .inl ⟨rfl, rfl⟩

/-- Both outcomes are those of the dispatcher, the IDs being what it returns. -/
theorem byDispatcher_bothDispatched {req : FanOutRequest} {spec spec' : TaskSpec}
    {first second : String} (tasks : req.tasks = [spec, spec'])
    (hfirst : (dispatch accepting spec req.contextID).2 = .ok (first, "agent.tasks.coder"))
    (hsecond : (dispatch accepting spec' req.contextID).2 = .ok (second, "agent.tasks.coder")) :
    ByDispatcher req (bothDispatched first second) := by
  intro i spec outcome now hspec hmem
  rw [tasks] at hspec
  obtain ⟨rfl, rfl⟩ | ⟨rfl, rfl⟩ := returns_bothDispatched hmem
  · obtain rfl := Option.some.inj hspec
    exact ⟨accepting, hfirst.symm⟩
  · obtain rfl := Option.some.inj hspec
    exact ⟨accepting, hsecond.symm⟩

theorem fanned_out_distinguishable_codeAndReview :
    ∃ prepared s, prepare (.ok "00") codeAndReview = .ok prepared ∧
      run (step prepared) (start prepared 0) (bothDispatched "a" "ctx-00-1f") = some s ∧
      s.result.taskIDs = ["a", "ctx-00-1f"] ∧ Distinguishable s.result ∧
      ∃ w, run (WaitForAll.step s.result.taskIDs) {} (bothAnswered "a" "ctx-00-1f") = some w ∧
        w.returned = true ∧ w.out "a" = receiveResult (resultMsg "a" 1) ∧
        w.out "ctx-00-1f" = receiveResult (resultMsg "ctx-00-1f" 2) := by
  have accepted : prepare (.ok "00") codeAndReview =
    .ok { codeAndReview with contextID := "ctx-00" } := rfl
  have values : (run (step { codeAndReview with contextID := "ctx-00" })
      (start { codeAndReview with contextID := "ctx-00" } 0) (bothDispatched "a" "ctx-00-1f")).map
        (fun s => (s.pc, s.result.taskIDs)) = some (.returned none, ["a", "ctx-00-1f"]) := by
    decide
  have gathered : (run (WaitForAll.step ["a", "ctx-00-1f"]) {} (bothAnswered "a" "ctx-00-1f")).map
      (fun w => (w.returned, w.out "a", w.out "ctx-00-1f")) =
      some (true, receiveResult (resultMsg "a" 1), receiveResult (resultMsg "ctx-00-1f" 2)) := by
    decide +kernel
  obtain ⟨s, hs, e⟩ := Option.map_eq_some_iff.mp values
  obtain ⟨hpc, hids⟩ := Prod.mk.inj e
  obtain ⟨w, hw, e⟩ := Option.map_eq_some_iff.mp gathered
  simp only [Prod.mk.injEq] at e
  refine ⟨_, s, accepted, hs, hids,
    (fanned_out_distinguishable accepted hs hpc ?_ ?_).1 (by decide), w, hids ▸ hw, e⟩
  · exact byDispatcher_bothDispatched rfl rfl rfl
  · intro i j spec id id' subject subject' now now' hij _ _ hmem hmem'
    obtain ⟨rfl, e⟩ | ⟨rfl, e⟩ := returns_bothDispatched hmem <;>
      obtain ⟨rfl, e'⟩ | ⟨rfl, e'⟩ := returns_bothDispatched hmem' <;> simp_all

/-- Two tasks with one ID. -/
def sameID : FanOutRequest where
  tasks := [
    { id := "t", skillID := "code", prompt := "p" },
    { id := "t", skillID := "review", prompt := "q" }]

/-- Both tasks are accepted and dispatched, and the result of one of them is lost. -/
theorem same_id_indistinguishable :
    ∃ prepared s w, prepare (.ok "00") sameID = .ok prepared ∧
      run (step prepared) (start prepared 0) (bothDispatched "t" "t") = some s ∧
      s.pc = .returned none ∧ ByDispatcher prepared (bothDispatched "t" "t") ∧
      GeneratedUnique prepared (bothDispatched "t" "t") ∧ s.result.taskIDs = ["t", "t"] ∧
      run (WaitForAll.step ["t", "t"]) {} (bothAnswered "t" "t") = some w ∧ w.returned = true ∧
      w.out "t" = receiveResult (resultMsg "t" 2) ∧ w.out "t" ≠ receiveResult (resultMsg "t" 1) ∧
      ¬ Distinguishable s.result := by
  have accepted : prepare (.ok "00") sameID = .ok { sameID with contextID := "ctx-00" } := rfl
  have values : (run (step { sameID with contextID := "ctx-00" })
      (start { sameID with contextID := "ctx-00" } 0) (bothDispatched "t" "t")).map
        (fun s => (s.pc, s.result.taskIDs)) = some (.returned none, ["t", "t"]) := by
    decide
  have gathered : (run (WaitForAll.step ["t", "t"]) {} (bothAnswered "t" "t")).map
      (fun w => (w.returned, w.out "t")) = some (true, receiveResult (resultMsg "t" 2)) := by
    decide +kernel
  obtain ⟨s, hs, e⟩ := Option.map_eq_some_iff.mp values
  obtain ⟨hpc, hids⟩ := Prod.mk.inj e
  obtain ⟨w, hw, e⟩ := Option.map_eq_some_iff.mp gathered
  obtain ⟨hreturned, hout⟩ := Prod.mk.inj e
  refine ⟨_, s, w, accepted, hs, hpc, ?_, ?_, hids, hw, hreturned, hout, ?_, fun right => ?_⟩
  · exact byDispatcher_bothDispatched rfl rfl rfl
  · intro i j spec id id' subject subject' now now' _ hspec hgen
    have hmem : spec ∈ sameID.tasks := List.mem_of_getElem? hspec
    simp only [sameID, List.mem_cons, List.not_mem_nil, or_false] at hmem
    rcases hmem with rfl | rfl
    · simp at hgen
    · simp at hgen
  · rw [hout]
    decide +kernel
  · have := right.distinct
    simp [hids] at this

end Daedalus.Orchestrator.FanOut
