import Daedalus.Orchestrator.Collector

/-!
# No lost wake-up, no leaked waiter

The invariant that links `waiters` to `results`: a task has waiters only while it has no result,
and a listed channel is empty and belongs to a `WaitFor` call that has not returned. It holds in
every reachable state of the collector. On top of it, `Holds P` follows where results come
from: whatever is true of every result built from a message is true of everything the collector
stores, sends or returns.
-/
namespace Daedalus.Orchestrator

open A2A Foundation

def Phase.isReturned : Phase → Bool
  | .returned _ => true
  | _ => false

/-- The collector's invariant. -/
structure Inv (s : Collector) : Prop where
  /-- A task with waiters has no result yet. -/
  unresolved : ∀ id ws, s.waiters id = some ws → s.results id = none ∧ ws ≠ []
  /-- A listed channel is empty and its call is still in progress. -/
  listed : ∀ id c, c ∈ (s.waiters id).getD [] →
    s.chan c = none ∧ ∃ p, s.calls c = some ⟨id, p⟩ ∧ p.isReturned = false
  /-- A blocked call is listed or has something to receive. -/
  awake : ∀ c id, s.calls c = some ⟨id, .blocked⟩ →
    c ∈ (s.waiters id).getD [] ∨ s.chan c ≠ none
  /-- Names not given out yet are unused. -/
  fresh : ∀ c, s.next ≤ c → s.calls c = none ∧ s.chan c = none

theorem Inv.new : Inv .new := by
  constructor <;> simp [Collector.new]

/-- A call that was made is not the next one. -/
theorem Inv.ne_next {s : Collector} (hi : Inv s) {c : ℕ} {call : Call}
    (hc : s.calls c = some call) : c ≠ s.next := by
  rintro rfl
  simp [(hi.fresh s.next le_rfl).1] at hc

section Preservation

variable {s : Collector}

theorem Inv.waitFor (h : Inv s) (id : String) : Inv (s.waitFor id) := by
  obtain ⟨unresolved, listed, awake, fresh⟩ := h
  unfold Collector.waitFor
  cases hr : s.results id with
  | some r =>
    constructor <;> simp only [Function.update_apply]
    · exact unresolved
    · grind
    · grind
    · grind
  | none =>
    -- The new channel is empty, and it is listed for a task without a result.
    constructor <;> simp only [Function.update_apply]
    · intro id' ws hw
      split_ifs at hw with e
      · cases hw
        exact ⟨e ▸ hr, by simp⟩
      · exact unresolved id' ws hw
    · grind [Phase.isReturned]
    · grind
    · grind

/-- Storing keeps the invariant: the waiters of the task are told and forgotten together. -/
theorem Inv.storeAndNotify (h : Inv s) (tr : TaskResult) : Inv (s.storeAndNotify tr) := by
  have hwaiters : (s.storeAndNotify tr).waiters = Function.update s.waiters tr.taskID none := rfl
  have hcalls : (s.storeAndNotify tr).calls = s.calls := rfl
  have hnext : (s.storeAndNotify tr).next = s.next := rfl
  obtain ⟨unresolved, listed, awake, fresh⟩ := h
  constructor <;> simp only [hwaiters, hcalls, hnext, storeAndNotify_chan,
    storeAndNotify_results, Function.update_apply]
  · grind
  · grind
  · grind
  · grind

theorem Inv.receive (h : Inv s) {c : ℕ} {r : TaskResult} (id : String)
    (hch : s.chan c = some r) :
    Inv { s.setPhase c id (.returned (.ok r)) with chan := Function.update s.chan c none } := by
  obtain ⟨unresolved, listed, awake, fresh⟩ := h
  constructor <;> simp only [Collector.setPhase, Function.update_apply]
  · exact unresolved
  · grind
  · grind
  · grind

theorem Inv.ctxDone (h : Inv s) {c : ℕ} {id : String} (err : CtxErr)
    (hcall : s.calls c = some ⟨id, .blocked⟩) : Inv (s.setPhase c id (.canceled err)) := by
  obtain ⟨unresolved, listed, awake, fresh⟩ := h
  constructor <;> simp only [Collector.setPhase, Function.update_apply]
  · exact unresolved
  · grind [Phase.isReturned]
  · grind
  · grind

/-- A cancelled call takes its own channel out of the list and leaves the others. -/
theorem Inv.cleanUp (h : Inv s) {c : ℕ} {id : String} {err : CtxErr}
    (hcall : s.calls c = some ⟨id, .canceled err⟩) (result : Except GoError TaskResult) :
    Inv ((s.removeWaiter id c).setPhase c id (.returned result)) := by
  obtain ⟨unresolved, listed, awake, fresh⟩ := h
  constructor <;> simp only [Collector.setPhase, Collector.removeWaiter, Function.update_apply]
  · intro id' ws hw
    split_ifs at hw with e hempty
    · cases hw
      subst e
      refine ⟨?_, hempty⟩
      cases hs : s.waiters id' with
      | none => simp [hs] at hempty
      | some old => exact (unresolved id' old hs).1
    · exact unresolved id' ws hw
  · grind
  · grind
  · grind

theorem Inv.checked (h : Inv s) (checked : List TaskResult) : Inv { s with checked } :=
  ⟨h.unresolved, h.listed, h.awake, h.fresh⟩

/-- Every step keeps the invariant. -/
theorem Inv.step {t : Collector} {a : Act} (h : Inv s) (hs : step s a = some t) : Inv t := by
  obtain ⟨id, -, rfl⟩ | ⟨c, id, r, -, hcall, hch, rfl⟩ | ⟨c, id, err, -, hcall, rfl⟩ |
    ⟨c, id, err, -, hcall, rfl⟩ | ⟨_, tr, -, -, rfl⟩ | ⟨_, tr, -, -, -, rfl⟩ |
    ⟨tr, -, -, rfl⟩ | ⟨rfl, -⟩ := step_cases hs
  · exact h.waitFor id
  · exact h.receive id hch
  · exact h.ctxDone err hcall
  · exact h.cleanUp hcall _
  · exact h.storeAndNotify tr
  · exact h.checked _
  · exact (h.checked _).storeAndNotify tr
  · exact h

theorem Inv.run {acts : List Act} {t : Collector} (h : Inv s)
    (hr : Foundation.run Orchestrator.step s acts = some t) : Inv t :=
  run_invariant Inv (fun _ _ _ hs hstep => hs.step hstep) hr h

/-- A blocked call for a task that has a result can receive: nobody is listed for the task, so the
channel holds a value. -/
theorem Inv.released (h : Inv s) {c : ℕ} {id : String} (hcall : s.calls c = some ⟨id, .blocked⟩)
    (hres : s.results id ≠ none) : ∃ t, Orchestrator.step s (.receive c) = some t := by
  have hch : s.chan c ≠ none := by
    rcases h.awake c id hcall with hw | hch
    · cases hs : s.waiters id with
      | none => simp [hs] at hw
      | some ws => exact absurd (h.unresolved id ws hs).1 hres
    · exact hch
  obtain ⟨r, hr⟩ := Option.ne_none_iff_exists'.mp hch
  exact ⟨_, by simp only [Orchestrator.step, hcall, hr]; rfl⟩

end Preservation

/-! ## Where results come from -/

/-- The result that an action builds from the message it handles. -/
def Act.builds : Act → Option TaskResult
  | .handleResult msg => receiveResult msg
  | .handleStatus msg => receiveStatus msg
  | _ => none

/-- `P` is true of every result in the collector, and each is kept for the task it names. -/
structure Holds (P : TaskResult → Prop) (s : Collector) : Prop where
  results : ∀ id r, s.results id = some r → r.taskID = id ∧ P r
  chan : ∀ c r, s.chan c = some r → P r ∧ ∃ p, s.calls c = some ⟨r.taskID, p⟩
  returned : ∀ c id r, s.calls c = some ⟨id, .returned (.ok r)⟩ → r.taskID = id ∧ P r
  checked : ∀ r ∈ s.checked, P r

section Provenance

variable {P Q : TaskResult → Prop} {s t : Collector} {a : Act}

theorem Holds.new : Holds P .new := by
  constructor <;> simp [Collector.new]

theorem Holds.mono (h : Holds P s) (hPQ : ∀ r, P r → Q r) : Holds Q s where
  results id r hr := (h.results id r hr).imp_right (hPQ r)
  chan c r hr := (h.chan c r hr).imp_left (hPQ r)
  returned c id r hr := (h.returned c id r hr).imp_right (hPQ r)
  checked r hr := hPQ r (h.checked r hr)

theorem Holds.storeAndNotify (h : Holds P s) (hi : Inv s) {tr : TaskResult} (htr : P tr) :
    Holds P (s.storeAndNotify tr) := by
  obtain ⟨results, chan, returned, checked⟩ := h
  refine ⟨?_, ?_, returned, checked⟩
  · simp only [storeAndNotify_results]
    grind
  · -- A channel that is filled now belongs to a call for the same task.
    intro c r hr
    rw [storeAndNotify_chan] at hr
    split_ifs at hr with hand
    · cases hr
      obtain ⟨_, p, hp, _⟩ := hi.listed _ c hand.1
      exact ⟨htr, p, hp⟩
    · exact chan c r hr

/-- If `P` holds of what an action builds, the step keeps `Holds P`. -/
theorem Holds.step (h : Holds P s) (hi : Inv s) (hb : ∀ r, a.builds = some r → P r)
    (hs : step s a = some t) : Holds P t := by
  obtain ⟨id, -, rfl⟩ | ⟨c, id, r, -, hcall, hch, rfl⟩ | ⟨c, id, err, -, hcall, rfl⟩ |
    ⟨c, id, err, -, hcall, rfl⟩ | ⟨_, tr, rfl, htr, rfl⟩ | ⟨_, tr, rfl, htr, -, rfl⟩ |
    ⟨tr, -, htr, rfl⟩ | ⟨rfl, -⟩ := step_cases hs
  · obtain ⟨results, chan, returned, checked⟩ := h
    have fresh := hi.fresh
    unfold Collector.waitFor
    split <;> refine ⟨results, ?_, ?_, checked⟩ <;> simp only [Function.update_apply] <;> grind
  · obtain ⟨results, chan, returned, checked⟩ := h
    refine ⟨results, ?_, ?_, checked⟩ <;>
      simp only [Collector.setPhase, Function.update_apply] <;> grind
  · obtain ⟨results, chan, returned, checked⟩ := h
    refine ⟨results, ?_, ?_, checked⟩ <;>
      simp only [Collector.setPhase, Function.update_apply] <;> grind
  · obtain ⟨results, chan, returned, checked⟩ := h
    refine ⟨results, ?_, ?_, checked⟩ <;>
      simp only [Collector.setPhase, Collector.removeWaiter, Function.update_apply] <;> grind
  · exact h.storeAndNotify hi (hb tr htr)
  · refine ⟨h.results, h.chan, h.returned, ?_⟩
    intro r hr
    rcases List.mem_append.mp hr with hr | hr
    · exact h.checked r hr
    · exact List.mem_singleton.mp hr ▸ hb tr htr
  · have checked : Holds P { s with checked := s.checked.erase tr } :=
      ⟨h.results, h.chan, h.returned, fun r hr => h.checked r (List.mem_of_mem_erase hr)⟩
    exact checked.storeAndNotify (hi.checked _) (h.checked tr htr)
  · exact h

/-- Storing a full task leaves a full task. -/
theorem storeAndNotify_full (s : Collector) {tr : TaskResult} (full : tr.task.isSome) :
    ∃ r, (s.storeAndNotify tr).results tr.taskID = some r ∧ r.task.isSome := by
  rw [storeAndNotify_results, if_pos rfl]
  split_ifs with hkeeps
  · cases hr : s.results tr.taskID with
    | none => simp [hr, keeps] at hkeeps
    | some r => exact ⟨r, rfl, by simpa [hr, keeps] using hkeeps⟩
  · exact ⟨tr, rfl, full⟩

/-- A full task is final: no step replaces it. -/
theorem results_kept {id : String} {r : TaskResult} (hs : step s a = some t)
    (hr : s.results id = some r) (full : r.task.isSome) : t.results id = some r := by
  have store : ∀ u : Collector, u.results = s.results → ∀ tr,
      (u.storeAndNotify tr).results id = some r := by
    intro u hu tr
    rw [storeAndNotify_results, hu]
    simp [hr, keeps, full]
  obtain ⟨id', -, rfl⟩ | ⟨_, _, _, -, -, -, rfl⟩ | ⟨_, _, _, -, -, rfl⟩ | ⟨_, _, _, -, -, rfl⟩ |
    ⟨_, tr, -, -, rfl⟩ | ⟨_, _, -, -, -, rfl⟩ | ⟨tr, -, -, rfl⟩ | ⟨rfl, -⟩ := step_cases hs
  · unfold Collector.waitFor
    split <;> exact hr
  · exact hr
  · exact hr
  · exact hr
  · exact store s rfl tr
  · exact hr
  · exact store _ rfl tr
  · exact hr

/-- A call stays a call for the same task. -/
theorem calls_kept (hi : Inv s) (hs : step s a = some t) {c : ℕ} {id : String} {p : Phase}
    (hc : s.calls c = some ⟨id, p⟩) : ∃ p', t.calls c = some ⟨id, p'⟩ := by
  obtain ⟨id', -, rfl⟩ | ⟨c', id', _, -, hcall, -, rfl⟩ | ⟨c', id', _, -, hcall, rfl⟩ |
    ⟨c', id', _, -, hcall, rfl⟩ | ⟨_, tr, -, -, rfl⟩ | ⟨_, _, -, -, -, rfl⟩ | ⟨tr, -, -, rfl⟩ |
    ⟨rfl, -⟩ := step_cases hs
  · have hne := hi.ne_next hc
    unfold Collector.waitFor
    split <;> exact ⟨p, by simp [hne, hc]⟩
  · simp only [Collector.setPhase, Function.update_apply]
    grind
  · simp only [Collector.setPhase, Function.update_apply]
    grind
  · simp only [Collector.setPhase, Collector.removeWaiter, Function.update_apply]
    grind
  all_goals exact ⟨p, hc⟩

end Provenance

/-! ## Safety of every reachable state -/

/-- The guarantees of the collector in a state reached by the actions `acts`. -/
structure Safe (acts : List Act) (s : Collector) : Prop where
  /-- A task with waiters has no result, -/
  waiting : ∀ id, (s.waiters id).getD [] ≠ [] → s.results id = none
  /-- so nobody stays blocked on a task whose result is stored. -/
  released : ∀ c id, s.calls c = some ⟨id, .blocked⟩ → s.results id ≠ none →
    ∃ t, step s (.receive c) = some t
  /-- A blocked call is listed, or its channel holds a value. -/
  blocked : ∀ c id, s.calls c = some ⟨id, .blocked⟩ →
    c ∈ (s.waiters id).getD [] ∨ s.chan c ≠ none
  /-- What a call returns was built from a message for its task, -/
  returned : ∀ c id r, s.calls c = some ⟨id, .returned (.ok r)⟩ →
    ∃ a ∈ acts, a.builds = some r ∧ r.taskID = id
  /-- and a status that is not terminal changes nothing. -/
  progress : ∀ (msg : Msg TaskStatus) status, msg.data = some status →
    isTerminal status.state = false → step s (.handleStatus msg) = some s
  /-- A full task stays stored, whatever happens next. -/
  final : ∀ id r, s.results id = some r → r.task.isSome →
    ∀ more t, run step s more = some t → t.results id = some r
  /-- Without a call in progress there are no waiters. -/
  idle : (∀ c id p, s.calls c = some ⟨id, p⟩ → p.isReturned = true) → ∀ id, s.waiters id = none

/-- Every reachable state of the collector is safe, for every interleaving of `WaitFor` calls,
cancellations and messages. -/
theorem collector_safe {acts : List Act} {s : Collector} (h : run step .new acts = some s) :
    Safe acts s := by
  have hi : Inv s := Inv.new.run h
  have built : Holds (fun r => ∃ a ∈ acts, a.builds = some r) s := by
    refine (run_history (fun past s =>
      Inv s ∧ Holds (fun r => ∃ a ∈ past, a.builds = some r) s) ?_ h ⟨.new, .new⟩).2
    rintro past s a t ⟨hinv, hbuilt⟩ hstep
    refine ⟨hinv.step hstep, Holds.step (hbuilt.mono ?_) hinv ?_ hstep⟩
    · rintro r ⟨b, hb, hr⟩
      exact ⟨b, List.mem_append_left _ hb, hr⟩
    · intro r hr
      exact ⟨a, by simp, hr⟩
  constructor
  · intro id hne
    cases hw : s.waiters id with
    | none => simp [hw] at hne
    | some ws => exact (hi.unresolved id ws hw).1
  · exact fun c id => hi.released
  · exact hi.awake
  · intro c id r hret
    obtain ⟨hid, a, ha, hbuilds⟩ := built.returned c id r hret
    exact ⟨a, ha, hbuilds, hid⟩
  · intro msg status hdata hterm
    simp [step, receiveStatus, hdata, hterm]
  · intro id r hr full more t hrun
    exact run_invariant (fun u => u.results id = some r)
      (fun _ _ _ hu hstep => results_kept hstep hu full) hrun hr
  · intro hall id
    cases hw : s.waiters id with
    | none => rfl
    | some ws =>
      obtain ⟨c, hc⟩ := List.exists_mem_of_ne_nil ws (hi.unresolved id ws hw).2
      obtain ⟨_, p, hp, hret⟩ := hi.listed id c (by simpa [hw] using hc)
      rw [hall c id p hp] at hret
      cases hret

/-- Two calls wait for `a`; a failed status arrives, one call receives it, and a result follows. -/
def statusThenResult : List Act :=
  [.waitFor "a",
   .waitFor "a",
   .handleStatus ⟨"agent.status.a", some { state := .failed }, 1⟩,
   .storeStatus ⟨"a", .failed, none, 1⟩,
   .receive 0,
   .handleResult ⟨"agent.results.a", some { id := "a", status := { state := .completed } }, 2⟩]

theorem collector_safe_statusThenResult :
    ∃ s, run step .new statusThenResult = some s ∧ Safe statusThenResult s := by
  have enabled : (run step .new statusThenResult).isSome = true := by decide
  obtain ⟨s, hs⟩ := Option.isSome_iff_exists.mp enabled
  exact ⟨s, hs, collector_safe hs⟩

end Daedalus.Orchestrator
