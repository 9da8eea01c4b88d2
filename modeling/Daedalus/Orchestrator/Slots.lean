import Daedalus.Foundation.Shared
import Daedalus.Orchestrator.FanOut

/-!
# Every outcome in its own slot

Two invariants of a fan-out. `Barrier` is about the wait group: when `done` is closed, every
goroutine has sent its value. `History` is about the values: each was built from the outcome of the
`Dispatch` of its task, and the slots hold what was taken out of the channel so far. Together they
say what a call returns, and a bound on the number of steps with a step that is always possible says
that it returns.
-/
namespace Daedalus.Orchestrator.FanOut

open A2A Dispatch Foundation

/-! ## Slots -/

section Slots

variable {received : List (ℕ × Slot)} {tasks : List Slot} {i : ℕ} {slot : Slot}

theorem length_foldl_place (received : List (ℕ × Slot)) (tasks : List Slot) :
    (received.foldl place tasks).length = tasks.length := by
  refine foldl_history (fun _ (placed : List Slot) => placed.length = tasks.length) ?_ rfl
  intro _ r _ placed _ hlen
  rw [place, List.length_set, hlen]

/-- A slot for which nothing was received is as it was. -/
theorem foldl_place_of_notMem (hi : i ∉ received.map Prod.fst) :
    (received.foldl place tasks)[i]? = tasks[i]? := by
  induction received using List.reverseRecOn with
  | nil => rfl
  | append_singleton received r ih =>
    simp only [List.map_append, List.mem_append, not_or] at hi
    have hne : r.1 ≠ i := by
      rintro rfl
      simp at hi
    rw [List.foldl_append, List.foldl_cons, List.foldl_nil, place, List.getElem?_set_ne hne,
      ih hi.1]

/-- If no slot is written twice, a slot holds what was received for it. -/
theorem foldl_place_of_mem (nodup : (received.map Prod.fst).Nodup) (hi : i < tasks.length)
    (hr : (i, slot) ∈ received) : (received.foldl place tasks)[i]? = some slot := by
  induction received using List.reverseRecOn with
  | nil => simp at hr
  | append_singleton received r ih =>
    rw [List.map_append, List.nodup_append] at nodup
    rw [List.foldl_append, List.foldl_cons, List.foldl_nil, place]
    rcases List.mem_append.mp hr with hr | hr
    · have hne : r.1 ≠ i := by
        rintro rfl
        exact nodup.2.2 r.1 (List.mem_map.mpr ⟨_, hr, rfl⟩) r.1 (by simp) rfl
      rw [List.getElem?_set_ne hne, ih nodup.1 hr]
    · obtain rfl := List.mem_singleton.mp hr
      rw [List.getElem?_set_self (by rwa [length_foldl_place])]

end Slots

/-! ## The wait group -/

/-- The wait group counts the goroutines that were started and have not finished, and `done` is
closed only when all have. -/
structure Barrier (req : FanOutRequest) (s : State) : Prop where
  bound : s.gather.launched ≤ req.tasks.length
  launched : s.pc ≠ .launching → s.gather.launched = req.tasks.length
  inside : ∀ i, s.inside i = true → i < s.gather.launched
  /-- A goroutine calls `wg.Done` after its send. -/
  outside : ∀ i < s.gather.launched, s.inside i = false → s.gather.workers i = .sent
  wg : s.wg = population s.inside req.tasks.length
  done : s.done = true → s.pc ≠ .launching ∧ s.wg = 0
  closed : s.pc.closed = true → s.done = true

section Barrier

variable {req : FanOutRequest} {s t : State} {a : Act}

theorem Barrier.start (req : FanOutRequest) (now : ℕ) : Barrier req (start req now) := by
  constructor <;> simp [FanOut.start, Gather.new, population, PC.closed]

/-- A goroutine that has not sent yet is inside, and its task exists. -/
theorem Barrier.inside_of_ne_sent (h : Barrier req s) {i : ℕ} (hi : i < s.gather.launched)
    (hw : s.gather.workers i ≠ .sent) : s.inside i = true := by
  by_contra hout
  exact hw (h.outside i hi (by simpa using hout))

/-- One goroutine moves without finishing. -/
theorem Barrier.move (h : Barrier req s) {i : ℕ} {w : Worker ℕ Slot} (inside : s.inside i = true) :
    Barrier req { s with gather := s.gather.setWorker i w } :=
  { h with
    outside := by
      intro j hj hout
      rw [Gather.workers_setWorker]
      split_ifs with e
      · subst e
        simp [inside] at hout
      · exact h.outside j hj hout }

theorem Barrier.step (h : Barrier req s)
    (started : ∀ i, (s.gather.workers i).Called → i < s.gather.launched)
    (hs : step req s a = some t) : Barrier req t := by
  cases step_cases hs with
  | launch hpc more =>
    have out : s.inside s.gather.launched = false := by
      by_contra hin
      exact lt_irrefl _ (h.inside _ (by simpa using hin))
    refine { h with
      bound := more
      launched := fun hne => absurd hpc hne
      inside := ?_
      outside := ?_
      wg := ?_
      done := fun hdone => absurd hpc (h.done hdone).1 }
    · intro i hi
      simp only [Function.update_apply] at hi
      simp only [Gather.launch]
      split_ifs at hi with e
      · omega
      · have := h.inside i hi
        omega
    · intro i hi hout
      simp only [Gather.launch] at hi
      simp only [Function.update_apply] at hout
      split_ifs at hout with e
      exact h.outside i (by omega) hout
    · rw [population_join more out, h.wg]
  | launched hpc all =>
    exact { h with
      launched := fun _ => all
      done := fun hdone => absurd hpc (h.done hdone).1
      closed := by simp [PC.closed] }
  | callDispatch hw inside => exact h.move inside
  | dispatchReturns hw hspec =>
    refine h.move (h.inside_of_ne_sent (started _ ?_) ?_) <;> simp [hw, Worker.Called]
  | @send i slot hw room opened =>
    have inside := h.inside_of_ne_sent (started i (by simp [hw, Worker.Called])) (by simp [hw])
    exact { h.move inside with }
  | @finish i hw inside =>
    have hi := h.inside i inside
    have leave := population_leave (hi.trans_le h.bound) inside
    refine { h with
      inside := ?_
      outside := ?_
      wg := ?_
      done := ?_ }
    · intro j hj
      simp only [Function.update_apply] at hj
      split_ifs at hj with e
      exact h.inside j hj
    · intro j hj hout
      simp only [Function.update_apply] at hout
      split_ifs at hout with e
      · rw [e, hw]
      · exact h.outside j hj hout
    · have hwg := h.wg
      change s.wg - 1 = population (Function.update s.inside i false) req.tasks.length
      omega
    · intro hdone
      obtain ⟨hpc, hwg⟩ := h.done hdone
      exact ⟨hpc, by rw [hwg]⟩
  | allDone hpc undone hwg =>
    exact { h with
      done := fun _ => ⟨hpc, hwg⟩
      closed := fun _ => rfl }
  | cancel alive => exact { h with }
  | selectDone hpc done | awaitDone hpc done =>
    exact { h with
      launched := fun _ => h.launched (by simp [hpc])
      done := fun _ => ⟨by simp, (h.done done).2⟩
      closed := fun _ => done }
  | selectCtx hpc ctx =>
    exact { h with
      launched := fun _ => h.launched (by simp [hpc])
      done := fun hdone => ⟨by simp, (h.done hdone).2⟩
      closed := by simp [PC.closed] }
  | collect hpc hch => exact { h with }
  | ret hpc hch =>
    exact { h with
      launched := fun _ => h.launched (by simp [hpc])
      done := fun hdone => ⟨by simp, (h.done hdone).2⟩
      closed := fun _ => h.closed (by simp [hpc, PC.closed]) }

/-- Once `done` is closed, every goroutine has sent. -/
theorem Barrier.all_sent (h : Barrier req s) (hdone : s.done = true) {i : ℕ}
    (hi : i < req.tasks.length) : s.gather.workers i = .sent := by
  obtain ⟨hpc, hwg⟩ := h.done hdone
  refine h.outside i (by rw [h.launched hpc]; exact hi) ?_
  exact eq_false_of_population (by rw [← h.wg, hwg]) hi

end Barrier

/-! ## The history of a call -/

/-- After the actions `past`, when the calls of `Dispatch` have returned `returns` and the values
`received` have been taken out of the channel. -/
structure History (req : FanOutRequest) (past : List Act) (returns received : List (ℕ × Slot))
    (s : State) : Prop where
  tracks : s.gather.Tracks req.tasks.length (past.filterMap Act.called) returns received
  answered : past.filterMap Act.returned = returns.map Prod.fst
  /-- A call that returned is answered by the slot built from its outcome. -/
  outcomes : ∀ i spec outcome now, req.tasks[i]? = some spec →
    .dispatchReturns i outcome now ∈ past →
    ∃ dispatchedAt, (i, Slot.of spec outcome dispatchedAt now) ∈ returns
  slots : s.result.tasks = received.foldl place (List.replicate req.tasks.length .zero)
  drained : ∀ err, s.pc = .returned err → s.gather.channel = []

section History

variable {req : FanOutRequest} {past : List Act} {returns received : List (ℕ × Slot)} {s t : State}
  {a : Act}

theorem History.start (req : FanOutRequest) (now : ℕ) :
    History req [] [] [] (start req now) where
  tracks := .new _
  answered := rfl
  outcomes := by simp
  slots := rfl
  drained := by simp [FanOut.start]

/-- An action that neither calls `Dispatch` nor returns from it adds nothing to the history. -/
theorem History.quiet (h : History req past returns received s) (called : a.called = none)
    (returned : a.returned = none) : History req (past ++ [a]) returns received s :=
  { h with
    tracks := by simpa [List.filterMap_append, called] using h.tracks
    answered := by simpa [List.filterMap_append, returned] using h.answered
    outcomes := by
      intro i spec outcome now hspec hmem
      rcases List.mem_append.mp hmem with hmem | hmem
      · exact h.outcomes i spec outcome now hspec hmem
      · obtain rfl := List.mem_singleton.mp hmem
        cases returned }

theorem History.step (h : History req past returns received s) (barrier : Barrier req s)
    (hs : step req s a = some t) :
    ∃ returns received, History req (past ++ [a]) returns received t := by
  cases step_cases hs with
  | launch hpc more =>
    exact ⟨returns, received, { h.quiet rfl rfl with
      tracks := (h.quiet rfl rfl).tracks.launch more }⟩
  | launched hpc all =>
    exact ⟨returns, received, { h.quiet rfl rfl with drained := by simp }⟩
  | @callDispatch i now hw inside =>
    refine ⟨returns, received, { h with
      tracks := ?_
      answered := ?_
      outcomes := ?_
      drained := h.drained }⟩
    · have called := h.tracks.call (barrier.inside i inside) hw now
      simpa [List.filterMap_append, List.filterMap_cons, Act.called] using called
    · simpa [List.filterMap_append, List.filterMap_cons, Act.returned] using h.answered
    · intro j spec outcome at' hspec hmem
      exact h.outcomes j spec outcome at' hspec (by simpa using hmem)
  | @dispatchReturns i now dispatchedAt outcome spec hw hspec =>
    refine ⟨returns ++ [(i, .of spec outcome dispatchedAt now)], received, { h with
      tracks := ?_
      answered := ?_
      outcomes := ?_
      drained := h.drained }⟩
    · have returned := h.tracks.ret hw (Slot.of spec outcome dispatchedAt now)
      simpa [List.filterMap_append, List.filterMap_cons, Act.called] using returned
    · simp [List.filterMap_append, Act.returned, h.answered]
    · intro j spec' outcome' at' hspec' hmem
      rcases List.mem_append.mp hmem with hmem | hmem
      · obtain ⟨dispatchedAt', hold⟩ := h.outcomes j spec' outcome' at' hspec' hmem
        exact ⟨dispatchedAt', List.mem_append_left _ hold⟩
      · simp only [List.mem_singleton, Act.dispatchReturns.injEq] at hmem
        obtain ⟨rfl, rfl, rfl⟩ := hmem
        obtain rfl := Option.some.inj (hspec.symm.trans hspec')
        exact ⟨dispatchedAt, by simp⟩
  | @send i slot hw room opened =>
    refine ⟨returns, received, { h.quiet rfl rfl with
      tracks := (h.quiet rfl rfl).tracks.send hw
      drained := ?_ }⟩
    intro err hpc
    have hpc : s.pc = .returned err := hpc
    simp [hpc, PC.closed] at opened
  | finish hw inside => exact ⟨returns, received, { h.quiet rfl rfl with }⟩
  | allDone hpc undone hwg => exact ⟨returns, received, { h.quiet rfl rfl with }⟩
  | cancel alive => exact ⟨returns, received, { h.quiet rfl rfl with }⟩
  | selectDone hpc done | selectCtx hpc ctx | awaitDone hpc done =>
    exact ⟨returns, received, { h.quiet rfl rfl with drained := by simp }⟩
  | @collect r rest hpc hch =>
    refine ⟨returns, received ++ [r], { h.quiet rfl rfl with
      tracks := (h.quiet rfl rfl).tracks.receive hch
      slots := ?_
      drained := by simp [hpc] }⟩
    simp [List.foldl_append, h.slots]
  | ret hpc hch =>
    exact ⟨returns, received, { h.quiet rfl rfl with drained := fun _ _ => hch }⟩

end History

/-- A state that a call can be in after the actions `past`. -/
def Reached (req : FanOutRequest) (past : List Act) (s : State) : Prop :=
  Barrier req s ∧ ∃ returns received, History req past returns received s

theorem reached {req : FanOutRequest} {now : ℕ} {acts : List Act} {s : State}
    (h : run (step req) (start req now) acts = some s) : Reached req acts s := by
  refine run_history (Reached req) ?_ h ⟨.start req now, [], [], .start req now⟩
  rintro past s a t ⟨barrier, returns, received, history⟩ hs
  exact ⟨barrier.step history.tracks.started hs, history.step barrier hs⟩

/-! ## A call returns -/

/-- How many steps a goroutine has left up to its send, where the value in the channel counts. -/
def weight : Worker ℕ Slot → ℕ
  | .pending => 4
  | .calling _ => 3
  | .holding _ => 2
  | .sent => 0

def PC.rank : PC → ℕ
  | .launching => 4
  | .selecting => 3
  | .interrupted => 2
  | .collecting => 1
  | .returned _ => 0

/-- How many steps a call has left at most. -/
def State.left (req : FanOutRequest) (s : State) : ℕ :=
  2 * (req.tasks.length - s.gather.launched) + remaining req.tasks.length weight s.gather.workers +
    s.gather.channel.length + s.wg + s.pc.rank + (if s.done then 0 else 1) +
    (if s.ctxErr = none then 1 else 0)

section Returns

variable {req : FanOutRequest} {past : List Act} {s t : State} {a : Act}

theorem left_start (req : FanOutRequest) (now : ℕ) :
    (start req now).left req = 6 * req.tasks.length + 6 := by
  simp [State.left, start, Gather.new, remaining, weight, PC.rank]
  omega

theorem left_step (h : Reached req past s) (hs : step req s a = some t) :
    t.left req < s.left req := by
  obtain ⟨barrier, returns, received, history⟩ := h
  have below : ∀ i, (s.gather.workers i).Called → i < req.tasks.length := fun i =>
    history.tracks.below
  cases step_cases hs with
  | launch hpc more =>
    simp only [State.left, Gather.launch]
    omega
  | launched hpc all => simp [State.left, hpc, PC.rank]
  | @callDispatch i now hw inside =>
    have hi := (barrier.inside i inside).trans_le barrier.bound
    have moved := remaining_update hi weight s.gather.workers (.calling now)
    simp only [hw, weight] at moved
    simp only [State.left, Gather.setWorker]
    omega
  | @dispatchReturns i now dispatchedAt outcome spec hw hspec =>
    have moved := remaining_update (below i (by simp [hw, Worker.Called])) weight s.gather.workers
      (.holding (.of spec outcome dispatchedAt now))
    simp only [hw, weight] at moved
    simp only [State.left, Gather.setWorker]
    omega
  | @send i slot hw room opened =>
    have moved := remaining_update (below i (by simp [hw, Worker.Called])) weight s.gather.workers
      .sent
    simp only [hw, weight] at moved
    simp only [State.left, Gather.send, Gather.setWorker, List.length_append, List.length_singleton]
    omega
  | @finish i hw inside =>
    have leave := population_leave ((barrier.inside i inside).trans_le barrier.bound) inside
    have hwg := barrier.wg
    simp only [State.left]
    omega
  | allDone hpc undone hwg => simp [State.left, undone]
  | cancel alive => simp [State.left, alive]
  | selectDone hpc done => simp [State.left, hpc, PC.rank]
  | selectCtx hpc ctx => simp [State.left, hpc, PC.rank]
  | awaitDone hpc done => simp [State.left, hpc, PC.rank]
  | collect hpc hch => simp [State.left, hch]
  | ret hpc hch => simp [State.left, hpc, PC.rank]

theorem length_add_left_le {now : ℕ} {acts : List Act}
    (h : run (step req) (start req now) acts = some s) :
    acts.length + s.left req ≤ 6 * req.tasks.length + 6 := by
  have both : Reached req acts s ∧ acts.length + s.left req ≤ 6 * req.tasks.length + 6 := by
    refine run_history
      (fun past s => Reached req past s ∧ past.length + s.left req ≤ 6 * req.tasks.length + 6)
      ?_ h ⟨⟨.start req now, [], [], .start req now⟩, by simp [left_start]⟩
    rintro past s a t ⟨hr, hle⟩ hs
    obtain ⟨barrier, returns, received, history⟩ := hr
    have less := left_step ⟨barrier, returns, received, history⟩ hs
    refine ⟨⟨barrier.step history.tracks.started hs, history.step barrier hs⟩, ?_⟩
    rw [List.length_append, List.length_singleton]
    omega
  exact both.2

/-- A value that is about to be sent can be sent: the channel has room and is open. -/
theorem send_enabled (h : Reached req past s) {i : ℕ} {slot : Slot}
    (hw : s.gather.workers i = .holding slot) : ∃ t, step req s (.send i) = some t := by
  obtain ⟨barrier, returns, received, history⟩ := h
  have room := history.tracks.room hw
  have opened : s.pc.closed = false := by
    by_contra hclosed
    have hi : i < req.tasks.length := history.tracks.below (by simp [hw, Worker.Called])
    have sent := barrier.all_sent (barrier.closed (by simpa using hclosed)) hi
    simp [hw] at sent
  exact ⟨_, (Step.send hw room opened).enabled⟩

/-- As long as a goroutine is inside, it or its `Dispatch` can take a step. -/
theorem inside_proceeds (h : Reached req past s) {i : ℕ} (inside : s.inside i = true) :
    ∃ a t, a.own = true ∧ step req s a = some t := by
  have hi := (h.1.inside i inside).trans_le h.1.bound
  cases hw : s.gather.workers i with
  | pending => exact ⟨.callDispatch i 0, _, rfl, (Step.callDispatch hw inside).enabled⟩
  | calling dispatchedAt =>
    exact ⟨.dispatchReturns i (.ok ("", "")) 0, _, rfl,
      (Step.dispatchReturns hw (List.getElem?_eq_getElem hi)).enabled⟩
  | holding slot =>
    obtain ⟨t, ht⟩ := send_enabled h hw
    exact ⟨.send i, t, rfl, ht⟩
  | sent => exact ⟨.finish i, _, rfl, (Step.finish hw inside).enabled⟩

/-- While `done` is open, a goroutine can take a step or the wait group is empty. -/
theorem open_proceeds (h : Reached req past s) (hpc : s.pc ≠ .launching) (undone : s.done = false) :
    ∃ a t, a.own = true ∧ step req s a = some t := by
  by_cases hwg : s.wg = 0
  · exact ⟨.allDone, _, rfl, (Step.allDone hpc undone hwg).enabled⟩
  · obtain ⟨i, -, inside⟩ := exists_of_population (by rw [← h.1.wg]; exact hwg)
    exact inside_proceeds h inside

/-- Until the call has returned, it or a `Dispatch` that is under way can take a step. -/
theorem progress (h : Reached req past s) (live : ∀ err, s.pc ≠ .returned err) :
    ∃ a t, a.own = true ∧ step req s a = some t := by
  cases hpc : s.pc with
  | launching =>
    rcases h.1.bound.lt_or_eq with more | all
    · exact ⟨.launch, _, rfl, (Step.launch hpc more).enabled⟩
    · exact ⟨.launched, _, rfl, (Step.launched hpc all).enabled⟩
  | selecting =>
    cases hdone : s.done with
    | true => exact ⟨.selectDone, _, rfl, (Step.selectDone hpc hdone).enabled⟩
    | false => exact open_proceeds h (by simp [hpc]) hdone
  | interrupted =>
    cases hdone : s.done with
    | true => exact ⟨.awaitDone, _, rfl, (Step.awaitDone hpc hdone).enabled⟩
    | false => exact open_proceeds h (by simp [hpc]) hdone
  | collecting =>
    cases hch : s.gather.channel with
    | nil => exact ⟨.ret 0, _, rfl, (Step.ret hpc hch).enabled⟩
    | cons r rest => exact ⟨.collect, _, rfl, (Step.collect hpc hch).enabled⟩
  | returned err => exact absurd hpc (live err)

end Returns

/-! ## Every outcome in its own slot -/

/-- What holds of a call in a state that it reaches by the actions `acts`. -/
structure OwnSlots (req : FanOutRequest) (acts : List Act) (s : State) : Prop where
  /-- The call goes on until it has returned, -/
  proceeds : (∀ err, s.pc ≠ .returned err) → ∃ a t, a.own = true ∧ step req s a = some t
  /-- which takes a bounded number of steps; -/
  bounded : acts.length ≤ 6 * req.tasks.length + 6
  /-- no goroutine is stuck at its send, -/
  sends : ∀ i slot, s.gather.workers i = .holding slot → ∃ t, step req s (.send i) = some t
  /-- and no slot is written twice. -/
  unwritten : ∀ i slot, (i, slot) ∈ s.gather.channel → s.result.tasks[i]? = some .zero
  /-- When it returns, `Dispatch` was called once for every task and has returned once, and there is
  a slot for every task, -/
  calls : ∀ err, s.pc = .returned err →
    (acts.filterMap Act.called).Perm (List.range req.tasks.length) ∧
      (acts.filterMap Act.returned).Perm (List.range req.tasks.length) ∧
      s.result.tasks.length = req.tasks.length
  /-- which holds the outcome of that task, and the times. -/
  slots : ∀ err, s.pc = .returned err → ∀ i spec outcome now, req.tasks[i]? = some spec →
    .dispatchReturns i outcome now ∈ acts →
    ∃ slot dispatchedAt, s.result.tasks[i]? = some slot ∧ slot.Tells spec outcome ∧
      slot = .of spec outcome dispatchedAt now

section OwnSlots

variable {req : FanOutRequest} {past : List Act} {returns received : List (ℕ × Slot)} {s : State}

/-- A returned call has received a value for every task. -/
theorem History.length_received (h : History req past returns received s) (barrier : Barrier req s)
    {err : Option GoError} (hpc : s.pc = .returned err) : received.length = req.tasks.length := by
  have hdone := barrier.closed (by simp [hpc, PC.closed])
  exact h.tracks.length_received (fun i => barrier.all_sent hdone) (h.drained err hpc)

theorem own_slots {now : ℕ} {acts : List Act} (h : run (step req) (start req now) acts = some s) :
    OwnSlots req acts s := by
  obtain ⟨barrier, returns, received, history⟩ := reached h
  have hr : Reached req acts s := ⟨barrier, returns, received, history⟩
  refine ⟨progress hr, ?_, fun i slot => send_enabled hr, ?_, ?_, ?_⟩
  · have := length_add_left_le h
    omega
  · intro i slot hmem
    have hi : i < req.tasks.length := by
      have returned := history.tracks.own _ (List.mem_append_right received hmem)
      have called := (history.tracks.answered.mem i).mp (List.mem_map.mpr ⟨_, returned, rfl⟩)
      exact history.tracks.below called.called
    rw [history.slots, foldl_place_of_notMem (history.tracks.unreceived hmem)]
    simp [hi]
  · intro err hpc
    obtain ⟨calls, answers, -, -⟩ :=
      history.tracks.complete (history.length_received barrier hpc)
    refine ⟨calls, history.answered ▸ answers, ?_⟩
    rw [history.slots, length_foldl_place, List.length_replicate]
  · intro err hpc i spec outcome now' hspec hmem
    obtain ⟨-, -, keys, same⟩ := history.tracks.complete (history.length_received barrier hpc)
    obtain ⟨dispatchedAt, hreturned⟩ := history.outcomes i spec outcome now' hspec hmem
    refine ⟨_, dispatchedAt, ?_, Slot.tells_of .., rfl⟩
    rw [history.slots]
    refine foldl_place_of_mem (keys.nodup_iff.mpr List.nodup_range) ?_ ((same _).mpr hreturned)
    rw [List.length_replicate]
    exact (List.getElem?_eq_some_iff.mp hspec).1

/-- Every slot of a returned call was built from an outcome of its task. -/
theorem OwnSlots.outcome_of_slot {acts : List Act} (h : OwnSlots req acts s)
    {err : Option GoError} (hpc : s.pc = .returned err) {i : ℕ} {slot : Slot}
    (hslot : s.result.tasks[i]? = some slot) :
    ∃ spec outcome dispatchedAt now, req.tasks[i]? = some spec ∧
      .dispatchReturns i outcome now ∈ acts ∧ slot = .of spec outcome dispatchedAt now := by
  obtain ⟨-, answers, hlen⟩ := h.calls err hpc
  have hi : i < req.tasks.length := hlen ▸ (List.getElem?_eq_some_iff.mp hslot).1
  have hspec : req.tasks[i]? = some req.tasks[i] := List.getElem?_eq_getElem hi
  obtain ⟨a, ha, hreturned⟩ := List.mem_filterMap.mp (answers.mem_iff.mpr (List.mem_range.mpr hi))
  cases a with
  | dispatchReturns j outcome now =>
    obtain rfl : j = i := Option.some.inj hreturned
    obtain ⟨_, dispatchedAt, hslot', -, rfl⟩ := h.slots err hpc j _ outcome now hspec ha
    exact ⟨_, outcome, dispatchedAt, now, hspec, ha, Option.some.inj (hslot.symm.trans hslot')⟩
  | _ => cases hreturned

theorem OwnSlots.nonzero {acts : List Act} (h : OwnSlots req acts s) {err : Option GoError}
    (hpc : s.pc = .returned err) : Slot.zero ∉ s.result.tasks := by
  intro hmem
  obtain ⟨i, hslot⟩ := List.mem_iff_getElem?.mp hmem
  obtain ⟨spec, outcome, dispatchedAt, now, -, -, zero⟩ := h.outcome_of_slot hpc hslot
  exact (Slot.tells_of spec outcome dispatchedAt now).nonzero zero.symm

/-- Two calls whose tasks have the same outcomes return the same slots, apart from times. -/
theorem OwnSlots.same_slots {acts acts' : List Act} {s' : State} (h : OwnSlots req acts s)
    (h' : OwnSlots req acts' s') {err err' : Option GoError} (hpc : s.pc = .returned err)
    (hpc' : s'.pc = .returned err')
    (same : ∀ i outcome now, .dispatchReturns i outcome now ∈ acts →
      ∃ now', .dispatchReturns i outcome now' ∈ acts') :
    s.result.tasks.map (fun slot => { slot with dispatchedAt := 0, completedAt := 0 }) =
      s'.result.tasks.map (fun slot => { slot with dispatchedAt := 0, completedAt := 0 }) := by
  have hlen : s.result.tasks.length = s'.result.tasks.length :=
    (h.calls err hpc).2.2.trans (h'.calls err' hpc').2.2.symm
  apply List.ext_getElem?
  intro i
  rw [List.getElem?_map, List.getElem?_map]
  cases hslot : s.result.tasks[i]? with
  | none =>
    rw [List.getElem?_eq_none (hlen ▸ List.getElem?_eq_none_iff.mp hslot)]
  | some slot =>
    obtain ⟨spec, outcome, dispatchedAt, now, hspec, ha, rfl⟩ := h.outcome_of_slot hpc hslot
    obtain ⟨now', ha'⟩ := same i outcome now ha
    obtain ⟨_, dispatchedAt', hslot', -, rfl⟩ := h'.slots err' hpc' i spec outcome now' hspec ha'
    rw [hslot', Option.map_some, Option.map_some]
    cases outcome <;> rfl

end OwnSlots

theorem prepare_ok {req : FanOutRequest} (valid : req.validate = .ok ()) (digits : String) :
    ∃ prepared, prepare (.ok digits) req = .ok prepared ∧ prepared.tasks = req.tasks := by
  simp only [prepare, valid, bind, Except.bind, generateContextID]
  split_ifs
  · exact ⟨_, rfl, rfl⟩
  · exact ⟨_, rfl, rfl⟩

/-- `FanOut` puts every outcome into its own slot: whatever `Dispatch` returns and in whatever
order, and whenever the context is cancelled. The context ID can always be generated, since
`rand.Read` does not fail. -/
theorem fan_out_own_slots {req : FanOutRequest} (valid : req.validate = .ok ()) (digits : String) :
    ∃ prepared, prepare (.ok digits) req = .ok prepared ∧ prepared.tasks = req.tasks ∧
      ∀ now acts s, run (step prepared) (start prepared now) acts = some s →
        OwnSlots prepared acts s ∧ (∀ err, s.pc = .returned err → Slot.zero ∉ s.result.tasks) ∧
        ∀ now' acts' s', run (step prepared) (start prepared now') acts' = some s' →
          ∀ err err', s.pc = .returned err → s'.pc = .returned err' →
          (∀ i outcome now, .dispatchReturns i outcome now ∈ acts →
            ∃ now', .dispatchReturns i outcome now' ∈ acts') →
          s.result.tasks.map (fun slot => { slot with dispatchedAt := 0, completedAt := 0 }) =
            s'.result.tasks.map (fun slot =>
              { slot with dispatchedAt := 0, completedAt := 0 }) := by
  obtain ⟨prepared, hprepared, htasks⟩ := prepare_ok valid digits
  refine ⟨prepared, hprepared, htasks, fun now acts s h =>
    ⟨own_slots h, fun err => (own_slots h).nonzero, ?_⟩⟩
  intro now' acts' s' h' err err' hpc hpc' same
  exact (own_slots h).same_slots (own_slots h') hpc hpc' same

/-- One task with an ID and one without. -/
def codeAndReview : FanOutRequest where
  tasks := [
    { id := "a", skillID := "code", prompt := "p" }, { skillID := "review", prompt := "q" }]

/-- The second task is dispatched first. The context is cancelled during the first `Dispatch`, which
fails. -/
def crossing : List Act := [
  .launch, .launch, .callDispatch 1 1, .launched, .callDispatch 0 2,
  .dispatchReturns 1 (.ok ("ctx-00-1f", "agent.tasks.reviewer")) 3, .send 1, .cancel .canceled,
  .selectCtx, .finish 1, .dispatchReturns 0 (.error CtxErr.canceled.toError) 4, .send 0, .finish 0,
  .allDone, .awaitDone, .collect, .collect, .ret 5]

theorem fan_out_own_slots_crossing :
    ∃ prepared s, prepare (.ok "00") codeAndReview = .ok prepared ∧
      run (step prepared) (start prepared 0) crossing = some s ∧
      s.pc = .returned (some (.wrap "orchestrator: fan-out interrupted" CtxErr.canceled.toError)) ∧
      s.result.tasks = [
        .of { id := "a", skillID := "code", prompt := "p" } (.error CtxErr.canceled.toError) 2 4,
        .of { skillID := "review", prompt := "q" }
          (.ok ("ctx-00-1f", "agent.tasks.reviewer")) 1 3] ∧
      OwnSlots prepared crossing s := by
  have valid : codeAndReview.validate = .ok () := rfl
  obtain ⟨prepared, hprepared, -, all⟩ := fan_out_own_slots valid "00"
  obtain rfl : { codeAndReview with contextID := "ctx-00" } = prepared := Except.ok.inj hprepared
  have values : (run (step { codeAndReview with contextID := "ctx-00" })
      (start { codeAndReview with contextID := "ctx-00" } 0) crossing).map
        (fun s => (s.pc, s.result.tasks)) =
      some (.returned (some (.wrap "orchestrator: fan-out interrupted" CtxErr.canceled.toError)), [
        .of { id := "a", skillID := "code", prompt := "p" } (.error CtxErr.canceled.toError) 2 4,
        .of { skillID := "review", prompt := "q" }
          (.ok ("ctx-00-1f", "agent.tasks.reviewer")) 1 3]) := by
    decide
  obtain ⟨s, hs, e⟩ := Option.map_eq_some_iff.mp values
  obtain ⟨hpc, htasks⟩ := Prod.mk.inj e
  exact ⟨_, s, hprepared, hs, hpc, htasks, (all 0 crossing s hs).1⟩

end Daedalus.Orchestrator.FanOut
