import Daedalus.Orchestrator.Safety
import Daedalus.Scheduler.Safety

/-!
# The statuses a caller sees

One `Schedule` call over a `ResultCollector` that receives any messages at all. The state that a
worker writes travels through `handleResult` or `handleStatus`, the waiter and `outcomeStatus` into
the result, and nothing on the way translates a state the scheduler does not know: a status of
`rejected` is terminal for the collector, a result unblocks the waiter in whatever state it is, and
`outcomeStatus` hands an unknown state through.
-/
namespace Daedalus.Pipeline

open Foundation A2A Orchestrator Scheduler

/-- The statuses that `TaskOutcome` documents. -/
def vocabulary : List String := ["completed", "failed", "canceled", "skipped"]

/-- A `Schedule` call with the collector it waits on, and the `WaitFor` call made for each task. -/
structure Joint where
  state : State
  collector : Collector
  waits : List (String × ℕ)

namespace Joint

def start (d : DAG) : Joint where
  state := Scheduler.start d
  collector := .new
  waits := []

inductive Act where
  /-- A step of the call, `WaitFor` apart. What `Dispatch` returns is open. -/
  | schedule (a : Scheduler.Act)
  | waitFor (id : String)
  /-- The `WaitFor` of a task sees the cancelled context of the call. -/
  | ctxDone (id : String)
  | waitReturns (id : String)
  /-- A step of the collector: a message of any kind, a `WaitFor` of somebody else, or a step of
  its own. -/
  | collect (a : Orchestrator.Act)

/-- The steps of the call that this system makes in another way. -/
def isWaitReturns : Scheduler.Act → Bool
  | .waitReturns _ _ => true
  | _ => false

/-- The contexts of the calls made for tasks are not cancelled by others. -/
def Foreign (waits : List (String × ℕ)) : Orchestrator.Act → Bool
  | .ctxDone c _ => c ∉ waits.map Prod.snd
  | _ => true

def step (req : ScheduleRequest) (s : Joint) : Act → Option Joint
  | .schedule a =>
    if isWaitReturns a then none
    else (Scheduler.step req s.state a).map fun state => { s with state }
  | .waitFor id =>
    match s.state.pc, s.waits.lookup id with
    | .waiting pending _, none =>
      (pending.find? (·.1 = id)).map fun entry =>
        { s with
          collector := s.collector.waitFor entry.2
          waits := (id, s.collector.next) :: s.waits }
    | _, _ => none
  | .ctxDone id =>
    s.state.ctxErr.bind fun err => (s.waits.lookup id).bind fun c =>
      (Orchestrator.step s.collector (.ctxDone c err)).map fun collector => { s with collector }
  | .waitReturns id =>
    (s.waits.lookup id).bind fun c =>
      match s.collector.calls c with
      | some ⟨_, .returned result⟩ =>
        (Scheduler.step req s.state (.waitReturns id result)).map fun state => { s with state }
      | _ => none
  | .collect a =>
    if Foreign s.waits a then
      (Orchestrator.step s.collector a).map fun collector => { s with collector }
    else none

/-- What the workers say about the tasks that were dispatched. The IDs that `Dispatch` returns are
among `keys`; a result filed under one of them is in a state that the vocabulary has, and a status
for one of them is not `rejected`. -/
def Act.Speaks (keys : String → Prop) : Act → Prop
  | .schedule (.dispatchReturns _ (.ok dispID)) => keys dispID
  | .collect (.handleResult msg) => ∀ task, msg.data = some task →
    keys (if task.id ≠ "" then task.id else extractSuffix msg.subject "agent.results.") →
      task.status.state.name ∈ vocabulary
  | .collect (.handleStatus msg) => ∀ status, msg.data = some status →
    keys (extractSuffix msg.subject "agent.status.") → status.state ≠ .rejected
  | _ => True

variable {req : ScheduleRequest} {keys : String → Prop} {s t : Joint}

/-! ## What a step can do -/

/-- A step is one of the call, the beginning or the end of a `WaitFor`, or one of the collector. -/
theorem step_cases {a : Act} (h : step req s a = some t) :
    (∃ b state, a = .schedule b ∧ isWaitReturns b = false ∧
      Scheduler.step req s.state b = some state ∧ t = { s with state }) ∨
    (∃ id dispID pending waitCh, a = .waitFor id ∧ s.state.pc = .waiting pending waitCh ∧
      (id, dispID) ∈ pending ∧ t = { s with
        collector := s.collector.waitFor dispID
        waits := (id, s.collector.next) :: s.waits }) ∨
    (∃ id c dispID result state, a = .waitReturns id ∧ (id, c) ∈ s.waits ∧
      s.collector.calls c = some ⟨dispID, .returned result⟩ ∧
      Scheduler.step req s.state (.waitReturns id result) = some state ∧ t = { s with state }) ∨
    (∃ b collector, Orchestrator.step s.collector b = some collector ∧ t = { s with collector } ∧
      (b.builds = none ∨ a = .collect b)) := by
  cases a with
  | schedule b =>
    left
    simp only [step] at h
    split_ifs at h with hwait
    obtain ⟨state, hstate, rfl⟩ := Option.map_eq_some_iff.mp h
    exact ⟨b, state, rfl, by simpa using hwait, hstate, rfl⟩
  | waitFor id =>
    right; left
    simp only [step] at h
    split at h
    · rename_i pending waitCh hpc _
      obtain ⟨entry, hfind, rfl⟩ := Option.map_eq_some_iff.mp h
      obtain ⟨dispID, rfl, hmem⟩ := mem_of_find?_fst hfind
      exact ⟨id, dispID, pending, waitCh, rfl, hpc, hmem, rfl⟩
    · cases h
  | ctxDone id =>
    right; right; right
    simp only [step, Option.bind_eq_some_iff, Option.map_eq_some_iff] at h
    obtain ⟨err, _, c, _, collector, hcollector, rfl⟩ := h
    exact ⟨_, collector, hcollector, rfl, .inl rfl⟩
  | waitReturns id =>
    right; right; left
    simp only [step, Option.bind_eq_some_iff] at h
    obtain ⟨c, hc, h⟩ := h
    split at h
    · rename_i dispID result hcall
      obtain ⟨state, hstate, rfl⟩ := Option.map_eq_some_iff.mp h
      obtain ⟨before, after, hwaits, -⟩ := List.lookup_eq_some_iff.mp hc
      exact ⟨id, c, dispID, result, state, rfl, by simp [hwaits], hcall, hstate, rfl⟩
    · cases h
  | collect b =>
    right; right; right
    simp only [step] at h
    split_ifs at h
    obtain ⟨collector, hcollector, rfl⟩ := Option.map_eq_some_iff.mp h
    exact ⟨b, collector, hcollector, rfl, .inr rfl⟩

/-! ## Steps and runs -/

/-- The three states that `outcomeStatus` names are written as their names, like all others. -/
theorem outcomeStatus_eq_name (state : TaskState) : outcomeStatus state = state.name := by
  cases state <;> rfl

/-- A result for a dispatched task is in a state of the vocabulary. -/
def InVocabulary (keys : String → Prop) (r : TaskResult) : Prop :=
  keys r.taskID → r.status.name ∈ vocabulary

theorem inVocabulary_of_builds {b : Orchestrator.Act} {r : TaskResult}
    (speaks : (Act.collect b).Speaks keys) (h : b.builds = some r) : InVocabulary keys r := by
  cases b with
  | handleResult msg =>
    cases hdata : msg.data with
    | none => simp [Orchestrator.Act.builds, receiveResult, hdata] at h
    | some task =>
      obtain ⟨hstatus, _, _, hid⟩ := receiveResult_spec hdata h
      intro hkey
      rw [hstatus]
      exact speaks task hdata (hid ▸ hkey)
  | handleStatus msg =>
    cases hdata : msg.data with
    | none => simp [Orchestrator.Act.builds, receiveStatus, hdata] at h
    | some status =>
      obtain ⟨terminal, rfl⟩ := receiveStatus_spec hdata h
      intro hkey
      have := speaks status hdata hkey
      cases hs : status.state <;> simp_all [isTerminal, TaskState.name, vocabulary]
  | waitFor | receive | ctxDone | cleanUp | storeStatus => cases h

/-- The dispatch IDs in the goroutines of the current wave are keys. -/
def Dispatched (keys : String → Prop) : PC → Prop
  | .dispatching _ slots => ∀ id dispID, slots id = .returned (.ok dispID) → keys dispID
  | .waiting pending _ => ∀ entry ∈ pending, keys entry.2
  | _ => True

/-- What holds as long as the workers speak the vocabulary. -/
structure Spoken (req : ScheduleRequest) (keys : String → Prop) (s : Joint) : Prop where
  inv : Scheduler.Inv req (fun _ status => status ∈ vocabulary) s.state
  dispatched : Dispatched keys s.state.pc
  collector : Orchestrator.Inv s.collector
  holds : Holds (InVocabulary keys) s.collector
  waits : ∀ entry ∈ s.waits, ∃ dispID p, keys dispID ∧
    s.collector.calls entry.2 = some ⟨dispID, p⟩

/-- The dispatch IDs stay keys along the steps of the call. -/
theorem Dispatched.step {s t : State} {a : Scheduler.Act} (h : Dispatched keys s.pc)
    (inv : Scheduler.Inv req (fun _ status => status ∈ vocabulary) s)
    (speaks : (Act.schedule a).Speaks keys) (hs : Scheduler.step req s a = some t) :
    Dispatched keys t.pc := by
  obtain ⟨running, _⟩ | ⟨u, _, _, rfl⟩ := inv
  swap
  · rw [step_returned rfl] at hs
    cases hs
  obtain ⟨err, rfl, _, _, rfl⟩ | ⟨rfl, hpc, rfl⟩ | ⟨id', wave, slots, rfl, hpc, _, _, rfl⟩ |
    ⟨id', result, wave, slots, rfl, hpc, _, _, rfl⟩ | ⟨wave, slots, rfl, hpc, returned, rfl⟩ |
    ⟨id', result, dispID, pending, waitCh, rfl, hpc, _, rfl⟩ |
    ⟨pending, wr, waitCh, rfl, hpc, rfl⟩ | ⟨rfl, hpc, rfl⟩ | ⟨rfl, hpc, rfl⟩ :=
    Scheduler.step_cases hs
  · exact h
  · obtain ⟨u, settled, ⟨e, _⟩ | ⟨e, _⟩ | ⟨wave, _, _, _, _, e⟩⟩ := round_cases running.core
    · simp [e, Dispatched]
    · simp [e, settled.pc_eq, hpc, Dispatched]
    · simp [e, Dispatched]
  · rw [hpc] at h
    intro id dispID hslot
    rw [Function.update_apply] at hslot
    split_ifs at hslot
    exact h id dispID hslot
  · rw [hpc] at h
    intro id dispID hslot
    rw [Function.update_apply] at hslot
    split_ifs at hslot
    · cases hslot
      exact speaks
    · exact h id dispID hslot
  · rw [hpc] at h
    intro entry hentry
    exact h entry.1 entry.2 ((running.spawned hpc returned).dispatched entry hentry)
  · rw [hpc] at h
    exact fun entry hentry => h entry (List.mem_of_mem_erase hentry)
  · rw [hpc] at h
    exact h
  · trivial
  · trivial

theorem Spoken.step {a : Act} (h : Spoken req keys s) (speaks : a.Speaks keys)
    (hs : step req s a = some t) : Spoken req keys t := by
  obtain ⟨b, state, rfl, hwait, hstate, rfl⟩ | ⟨id, dispID, pending, waitCh, rfl, hpc, hmem, rfl⟩ |
    ⟨id, c, dispID, result, state, rfl, hc, hcall, hstate, rfl⟩ |
    ⟨b, collector, hb, rfl, hbuilds⟩ := step_cases hs
  · have obeys : b.Obeys fun _ status => status ∈ vocabulary := by
      match b with
      | .dispatchReturns id (.error err) => simp [Scheduler.Act.Obeys, vocabulary]
      | .waitReturns id result => simp [isWaitReturns] at hwait
      | .dispatchReturns id (.ok _) => trivial
      | .cancel _ | .round | .callDispatch _ | .spawnWaits | .receive | .endWave | .ret => trivial
    exact ⟨h.inv.step obeys hstate, h.dispatched.step h.inv speaks hstate, h.collector, h.holds,
      h.waits⟩
  · have hs : Orchestrator.step s.collector (.waitFor dispID) =
        some (s.collector.waitFor dispID) := rfl
    refine ⟨h.inv, h.dispatched, h.collector.step hs,
      h.holds.step h.collector (fun _ hr => by cases hr) hs, ?_⟩
    have hkey : keys dispID := by
      have := h.dispatched
      rw [hpc] at this
      exact this _ hmem
    intro entry hentry
    rcases List.mem_cons.mp hentry with rfl | hold
    · obtain ⟨p, hp⟩ := waitFor_call s.collector dispID
      exact ⟨dispID, p, hkey, hp⟩
    · obtain ⟨dispID', p, hkey', hcall⟩ := h.waits entry hold
      obtain ⟨p', hcall⟩ := calls_kept h.collector hs hcall
      exact ⟨dispID', p', hkey', hcall⟩
  · have obeys : (Scheduler.Act.waitReturns id result).Obeys fun _ status =>
        status ∈ vocabulary := by
      cases result with
      | error err =>
        simp only [Scheduler.Act.Obeys, waitStatus]
        split <;> decide
      | ok r =>
        obtain ⟨dispID', p, hkey, hp⟩ := h.waits _ hc
        obtain ⟨hid, said⟩ := h.holds.returned c dispID r hcall
        rw [hcall] at hp
        cases hp
        simp only [Scheduler.Act.Obeys, waitStatus, outcomeStatus_eq_name]
        exact said (hid ▸ hkey)
    have quiet : (Act.schedule (.waitReturns id result)).Speaks keys := trivial
    exact ⟨h.inv.step obeys hstate, h.dispatched.step h.inv quiet hstate, h.collector, h.holds,
      h.waits⟩
  · have built : ∀ r, b.builds = some r → InVocabulary keys r := by
      intro r hr
      rcases hbuilds with hnone | rfl
      · rw [hnone] at hr
        cases hr
      · exact inVocabulary_of_builds speaks hr
    refine ⟨h.inv, h.dispatched, h.collector.step hb, h.holds.step h.collector built hb, ?_⟩
    intro entry hentry
    obtain ⟨dispID, p, hkey, hcall⟩ := h.waits entry hentry
    obtain ⟨p', hcall⟩ := calls_kept h.collector hb hcall
    exact ⟨dispID, p', hkey, hcall⟩

/-- What is recorded at any time, the final sweep included. -/
theorem Spoken.status (h : Spoken req keys s) {id : String} {o : TaskOutcome}
    (ho : s.state.outcomes id = some o) : o.status ∈ vocabulary := by
  have recorded : ∀ u : State, Core req (fun _ status => status ∈ vocabulary) u →
      u.outcomes id = some o → o.status ∈ vocabulary := by
    intro u core ho
    obtain ⟨hskipped, _⟩ | ⟨_, said⟩ := core.verdict id o ho
    · simp [hskipped, vocabulary]
    · exact said
  obtain ⟨running, _⟩ | ⟨u, running, _, e⟩ := h.inv
  · exact recorded s.state running.core ho
  · rw [e] at ho
    cases hold : u.outcomes id with
    | some o' =>
      obtain rfl : o' = o := by simpa [fillCanceled, hold] using ho
      exact recorded u running.core hold
    | none =>
      simp only [fillCanceled, hold] at ho
      split_ifs at ho
      cases ho
      simp [vocabulary]

end Joint

/-- The outcome vocabulary. In every run of a `Schedule` call over a collector in which no result
filed under a dispatched ID is in a state outside the vocabulary, and no status for such an ID is
`rejected`, every outcome has one of the four documented statuses. -/
theorem outcome_vocabulary {req : ScheduleRequest} {order : req.MapOrder} {d : DAG}
    (valid : req.validate order = .ok d) (keys : String → Prop) {acts : List Joint.Act} {s : Joint}
    (speaks : Meets (Joint.step req) (fun _ a => a.Speaks keys) (.start d) acts)
    (h : run (Joint.step req) (.start d) acts = some s) :
    ∀ id o, s.state.outcomes id = some o → o.status ∈ vocabulary := by
  obtain ⟨_, tracks, empty⟩ := validate_ok valid
  have spoken : Joint.Spoken req keys s :=
    speaks.invariant (Joint.Spoken req keys) (fun _ _ _ hs ok hstep => hs.step ok hstep) h
      ⟨.inl ⟨.start tracks empty, nofun⟩, trivial, .new, .new, nofun⟩
  exact fun id o ho => spoken.status ho

/-- A request with one task. -/
def single : ScheduleRequest where
  tasks := [{ id := "a" }]

def singleOrder : single.MapOrder where
  tasks := ["a"]
  nodes := ["a"]
  tasks_perm := by decide
  nodes_perm := by decide

/-- The task is dispatched, a status arrives for it, and the call takes that for its result. -/
def statusRun (state : TaskState) : List Joint.Act := [
  .schedule .round, .schedule (.callDispatch "a"), .schedule (.dispatchReturns "a" (.ok "a")),
  .schedule .spawnWaits, .waitFor "a",
  .collect (.handleStatus ⟨"agent.status.a", some { state }, 0⟩),
  .collect (.storeStatus ⟨"a", state, none, 0⟩), .collect (.receive 0), .waitReturns "a",
  .schedule .receive, .schedule .endWave, .schedule .round, .schedule .ret]

theorem statusRun_returns (state : TaskState)
    (h : ((single.validate singleOrder).toOption.bind fun d =>
      (run (Joint.step single) (.start d) (statusRun state)).map fun s =>
        (s.state.pc.result, (s.state.outcomes "a").map (·.status))) =
          some (some none, some state.name)) :
    ∃ d s o, single.validate singleOrder = .ok d ∧
      run (Joint.step single) (.start d) (statusRun state) = some s ∧ s.state.pc = .returned none ∧
      s.state.outcomes "a" = some o ∧ o.status = state.name := by
  obtain ⟨d, hd, h⟩ := Option.bind_eq_some_iff.mp h
  obtain ⟨s, hs, h⟩ := Option.map_eq_some_iff.mp h
  obtain ⟨hpc, ho⟩ := Prod.mk.inj h
  obtain ⟨o, ho, hstatus⟩ := Option.map_eq_some_iff.mp ho
  exact ⟨d, s, o, toOption_eq_some.mp hd, hs, PC.result_eq_some.mp hpc, ho, hstatus⟩

theorem outcome_vocabulary_failed :
    ∃ d s o, single.validate singleOrder = .ok d ∧
      run (Joint.step single) (.start d) (statusRun .failed) = some s ∧
      s.state.outcomes "a" = some o ∧ o.status ∈ vocabulary := by
  obtain ⟨d, s, o, valid, hs, _, ho, _⟩ := statusRun_returns .failed (by decide)
  refine ⟨d, s, o, valid, hs, ho, ?_⟩
  refine outcome_vocabulary valid (fun _ => True) ?_ hs "a" o ho
  apply Meets.of_forall
  simp [statusRun, Joint.Act.Speaks]

/-- A worker rejects the task, and the call returns a status that `TaskOutcome` does not know. -/
theorem rejected_status :
    ∃ d s o, single.validate singleOrder = .ok d ∧
      run (Joint.step single) (.start d) (statusRun .rejected) = some s ∧
      s.state.pc = .returned none ∧ s.state.outcomes "a" = some o ∧ o.status = "rejected" ∧
      o.status ∉ vocabulary := by
  obtain ⟨d, s, o, valid, hs, hpc, ho, hstatus⟩ := statusRun_returns .rejected (by decide)
  exact ⟨d, s, o, valid, hs, hpc, ho, hstatus, by simp [hstatus, TaskState.name, vocabulary]⟩

end Daedalus.Pipeline
