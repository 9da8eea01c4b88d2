import Daedalus.Scheduler.Schedule

/-!
# What holds in every state of a `Schedule` call

Everything a call knows about finished tasks is written by `settle`, so the facts about outcomes,
counters and skip flags (`Core`) are proved for `settle` once and then carried through the two
loops that use it. `Running` adds the tasks of the current wave. Both are relative to a relation
`allowed` between tasks and statuses: what running a task may end in. With the relation that
allows everything they are plain safety; a narrower one gives the outcomes of a run whose
environment is fixed.
-/
namespace Daedalus.Scheduler

open Foundation A2A Orchestrator

variable {req : ScheduleRequest} {allowed : String → String → Prop} {s t u : State}

def State.Completed (s : State) (id : String) : Prop :=
  ∃ o, s.outcomes id = some o ∧ o.status = "completed"

def State.Failed (s : State) (id : String) : Prop :=
  ∃ o, s.outcomes id = some o ∧ o.status ≠ "completed"

/-- The facts about finished tasks. A task is finished in one of two ways: skipped because a
dependency did not complete, or run after all its dependencies completed. -/
structure Core (req : ScheduleRequest) (allowed : String → String → Prop) (s : State) :
    Prop where
  tracks : Tracks req s.d
  recorded : ∀ id, (s.outcomes id).isSome ↔ id ∈ s.d.completed
  skip : ∀ id, s.skip id = true ↔ ∃ a ∈ req.deps id, s.Failed a
  verdict : ∀ id o, s.outcomes id = some o →
    o.status = "skipped" ∧ (∃ a ∈ req.deps id, s.Failed a) ∨
      (∀ a ∈ req.deps id, s.Completed a) ∧ allowed id o.status

namespace Core

theorem start {d : DAG} (tracks : Tracks req d) (empty : d.completed = []) :
    Core req allowed (start d) := by
  refine ⟨tracks, ?_, ?_, ?_⟩
  · intro id
    simp [Scheduler.start, empty]
  · intro id
    simp [Scheduler.start, State.Failed]
  · intro id o h
    cases h

theorem outcomes_eq_none (h : Core req allowed s) {id : String} (hc : id ∉ s.d.completed) :
    s.outcomes id = none := by
  rw [← h.recorded] at hc
  simpa using hc

/-- A completed dependency did not fail, and conversely. -/
theorem completed_of_not_failed (h : Core req allowed s) {id : String}
    (hc : id ∈ s.d.completed) (hf : ¬ s.Failed id) : s.Completed id := by
  obtain ⟨o, ho⟩ := Option.isSome_iff_exists.mp ((h.recorded id).mpr hc)
  refine ⟨o, ho, ?_⟩
  by_contra hne
  exact hf ⟨o, ho, hne⟩

/-- Settling an unfinished task keeps every fact, provided the verdict is justified. -/
theorem settle (h : Core req allowed s) {id status : String} (error : Option GoError)
    {cascade : Bool} (hid : id ∈ req.ids) (hc : id ∉ s.d.completed)
    (verdict : status = "skipped" ∧ s.skip id = true ∨
      (∀ a ∈ req.deps id, s.Completed a) ∧ allowed id status)
    (cascades : cascade = true ↔ status ≠ "completed") :
    Core req allowed (settle s id status error cascade) ∧
      (∀ a, s.Completed a → (Scheduler.settle s id status error cascade).Completed a) := by
  have fresh := h.outcomes_eq_none hc
  have completed : ∀ a, (Scheduler.settle s id status error cascade).Completed a ↔
      s.Completed a ∨ a = id ∧ status = "completed" := by
    intro a
    by_cases e : a = id
    · simp [State.Completed, e, fresh]
    · simp [State.Completed, e]
  have failed : ∀ a, (Scheduler.settle s id status error cascade).Failed a ↔
      s.Failed a ∨ a = id ∧ status ≠ "completed" := by
    intro a
    by_cases e : a = id
    · simp [State.Failed, e, fresh]
    · simp [State.Failed, e]
  refine ⟨⟨h.tracks.complete hid hc, ?_, ?_, ?_⟩, fun a ha => (completed a).mpr (.inl ha)⟩
  · intro a
    have := h.recorded a
    simp only [settle_outcomes, settle_d, DAG.mem_complete_completed, Function.update_apply]
    grind
  · intro a
    have := h.skip a
    have := h.tracks.mem_edges (a := id) (b := a)
    simp only [settle_skip, failed]
    grind
  · intro a o ho
    have skip := h.skip id
    simp only [settle_outcomes, Function.update_apply] at ho
    simp only [completed, failed]
    split_ifs at ho with e
    · cases ho
      subst e
      grind
    · have := h.verdict a o ho
      grind

end Core

/-! ## The two loops that settle tasks -/

/-- Where a loop of the main goroutine may bring it: tasks were settled, nothing else changed. -/
structure Settled (req : ScheduleRequest) (allowed : String → String → Prop) (s u : State) :
    Prop where
  core : Core req allowed u
  frame : u = { s with d := u.d, outcomes := u.outcomes, skip := u.skip }
  completed : ∀ a, s.Completed a → u.Completed a
  finished : ∀ a ∈ s.d.completed, a ∈ u.d.completed

theorem Settled.refl (h : Core req allowed s) : Settled req allowed s s :=
  ⟨h, rfl, fun _ ha => ha, fun _ ha => ha⟩

theorem Settled.pc_eq (h : Settled req allowed s u) : u.pc = s.pc := by
  rw [h.frame]

theorem Settled.ctxErr_eq (h : Settled req allowed s u) : u.ctxErr = s.ctxErr := by
  rw [h.frame]

theorem Settled.settle (h : Settled req allowed s u) {id status : String} (error : Option GoError)
    {cascade : Bool} (hid : id ∈ req.ids) (hc : id ∉ u.d.completed)
    (verdict : status = "skipped" ∧ u.skip id = true ∨
      (∀ a ∈ req.deps id, u.Completed a) ∧ allowed id status)
    (cascades : cascade = true ↔ status ≠ "completed") :
    Settled req allowed s (settle u id status error cascade) := by
  obtain ⟨core, mono⟩ := h.core.settle error hid hc verdict cascades
  refine ⟨core, ?_, fun a ha => mono a (h.completed a ha), ?_⟩
  · have frame := h.frame
    unfold Scheduler.settle
    grind
  · intro a ha
    simp [h.finished a ha]

/-- The loop over the ready nodes, when `past` is behind it. -/
structure Partitioned (req : ScheduleRequest) (allowed : String → String → Prop) (s : State)
    (past : List String) (acc : State × List String × Bool) : Prop
    extends Settled req allowed s acc.1 where
  done : ∀ a, a ∈ acc.1.d.completed ↔ a ∈ s.d.completed ∨ a ∈ past ∧ s.skip a = true
  skip : ∀ a ∈ s.d.ready, acc.1.skip a = s.skip a
  toDispatch : acc.2.1 = past.filter (!s.skip ·)
  skipped : acc.2.2 = past.any s.skip
  remaining : acc.1.d.remaining - acc.2.1.length = s.d.remaining - past.length

theorem partitioned (h : Core req allowed s) :
    Partitioned req allowed s s.d.ready (s.d.ready.foldl partitionReady (s, [], false)) := by
  apply foldl_history (Partitioned req allowed s)
  · intro past id rest acc split ih
    have hready : id ∈ s.d.ready := by simp [← split]
    have hpast : id ∉ past := by
      have := split ▸ s.d.ready_nodup
      grind
    obtain ⟨hid, hc, hdeps⟩ := h.tracks.mem_ready.mp hready
    have hnew : id ∉ acc.1.d.completed := by simp [ih.done, hc, hpast]
    unfold partitionReady
    rw [ih.skip id hready]
    split_ifs with hskip
    · -- No ready node depends on another one, so the cascade leaves their flags alone.
      have apart : ∀ a ∈ s.d.ready, a ∉ acc.1.d.edges id := by
        intro a ha hedge
        rw [ih.core.tracks.mem_edges] at hedge
        exact hc ((h.tracks.mem_ready.mp ha).2.2 id hedge)
      have hverdict : acc.1.skip id = true := by rw [ih.skip id hready, hskip]
      refine ⟨ih.toSettled.settle none hid hnew (.inl ⟨rfl, hverdict⟩) (by decide),
        ?_, ?_, ?_, ?_, ?_⟩
      · intro a
        simp only [settle_d, DAG.mem_complete_completed, ih.done]
        grind
      · intro a ha
        simp [settle_skip, apart a ha, ih.skip a ha]
      · simp [ih.toDispatch, hskip]
      · simp [hskip]
      · have := ih.remaining
        simp only [settle_d, DAG.complete_remaining hnew, List.length_append,
          List.length_singleton]
        push_cast
        omega
    · refine ⟨ih.toSettled, ?_, ih.skip, ?_, ?_, ?_⟩
      · intro a
        rw [ih.done]
        grind
      · simp [ih.toDispatch, hskip]
      · simp [ih.skipped, hskip]
      · have := ih.remaining
        simp only [List.length_append, List.length_singleton]
        push_cast
        omega
  · exact ⟨.refl h, by simp, fun _ _ => rfl, rfl, rfl, by simp⟩

/-- A task that may be run: known, unfinished, and all its dependencies completed. -/
structure Runnable (req : ScheduleRequest) (s : State) (id : String) : Prop where
  known : id ∈ req.ids
  unfinished : id ∉ s.d.completed
  deps : ∀ a ∈ req.deps id, s.Completed a

/-- The loop over a dispatched wave, when `past` is behind it. -/
structure Spawned (req : ScheduleRequest) (allowed : String → String → Prop) (s : State)
    (slots : String → Slot) (past : List String) (acc : State × List (String × String)) : Prop
    extends Settled req allowed s acc.1 where
  done : ∀ a, a ∈ acc.1.d.completed ↔
    a ∈ s.d.completed ∨ a ∈ past ∧ a ∉ acc.2.map Prod.fst
  sublist : (acc.2.map Prod.fst).Sublist past
  dispatched : ∀ entry ∈ acc.2, slots entry.1 = .returned (.ok entry.2)
  remaining : acc.1.d.remaining - acc.2.length = s.d.remaining - past.length

theorem spawned {wave : List String} {slots : String → Slot} (h : Core req allowed s)
    (nodup : wave.Nodup) (runnable : ∀ id ∈ wave, Runnable req s id)
    (returned : ∀ id ∈ wave, (slots id).isReturned)
    (errors : ∀ id ∈ wave, ∀ err, slots id = .returned (.error err) → allowed id "failed") :
    Spawned req allowed s slots wave (wave.foldl (spawnWait slots) (s, [])) := by
  apply foldl_history (Spawned req allowed s slots)
  · intro past id rest acc split ih
    have hmem : id ∈ wave := by simp [← split]
    have hpast : id ∉ past := by
      have := split ▸ nodup
      grind
    have hpending : id ∉ acc.2.map Prod.fst := fun hp => hpast (ih.sublist.subset hp)
    have hrun := runnable id hmem
    have hnew : id ∉ acc.1.d.completed := by
      rw [ih.done]
      simp [hrun.unfinished, hpast]
    have hreturned := returned id hmem
    unfold spawnWait
    match hslot : slots id with
    | .returned (.error err) =>
      have hdeps : ∀ a ∈ req.deps id, acc.1.Completed a := fun a ha =>
        ih.completed a (hrun.deps a ha)
      refine ⟨ih.toSettled.settle (some err) hrun.known hnew
        (.inr ⟨hdeps, errors id hmem err hslot⟩) (by decide), ?_,
        ih.sublist.trans (List.sublist_append_left ..), ih.dispatched, ?_⟩
      · intro a
        simp only [settle_d, DAG.mem_complete_completed, ih.done]
        grind
      · have := ih.remaining
        simp only [settle_d, DAG.complete_remaining hnew, List.length_append,
          List.length_singleton]
        push_cast
        omega
    | .returned (.ok dispID) =>
      refine ⟨ih.toSettled, ?_, ?_, ?_, ?_⟩
      · intro a
        simp only [ih.done, List.map_append, List.mem_append]
        grind
      · simpa using ih.sublist
      · intro entry hentry
        rcases List.mem_append.mp hentry with he | he
        · exact ih.dispatched entry he
        · rw [List.mem_singleton.mp he, hslot]
      · have := ih.remaining
        simp only [List.length_append, List.length_singleton]
        push_cast
        omega
    | .spawned | .calling => simp [hslot, Slot.isReturned] at hreturned
  · exact ⟨.refl h, by simp, by simp, by simp, by simp⟩

/-! ## The wave -/

/-- The tasks whose goroutines are out. -/
def PC.active : PC → List String
  | .dispatching toDispatch _ => toDispatch
  | .waiting pending waitCh => pending.map (·.1) ++ waitCh.map (·.specID)
  | _ => []

/-- What the goroutines hold is allowed. -/
def PC.Obeys (allowed : String → String → Prop) : PC → Prop
  | .dispatching toDispatch slots =>
    ∀ id ∈ toDispatch, ∀ err, slots id = .returned (.error err) → allowed id "failed"
  | .waiting _ waitCh => ∀ wr ∈ waitCh, allowed wr.specID (waitStatus wr.result)
  | _ => True

/-- What the environment answers is allowed. -/
def Act.Obeys (allowed : String → String → Prop) : Act → Prop
  | .dispatchReturns id (.error _) => allowed id "failed"
  | .waitReturns id result => allowed id (waitStatus result)
  | _ => True

/-- A call that has not returned. -/
structure Running (req : ScheduleRequest) (allowed : String → String → Prop) (s : State) :
    Prop where
  core : Core req allowed s
  nodup : s.pc.active.Nodup
  runnable : ∀ id ∈ s.pc.active, Runnable req s id
  obeys : s.pc.Obeys allowed

/-- A call, running or returned. A call returns from a running state past the loop. -/
def Inv (req : ScheduleRequest) (allowed : String → String → Prop) (s : State) : Prop :=
  Running req allowed s ∧ (∀ err, s.pc ≠ .returned err) ∨
    ∃ u, Running req allowed u ∧ u.pc = .exit ∧
      s = { u with outcomes := fillCanceled req.ids u.outcomes, pc := .returned u.ctxErr }

/-- All that a round may record: a ready task whose skip flag is set is skipped, in the current
batch. -/
def Skips (s u : State) : Prop :=
  ∀ a, u.outcomes a = s.outcomes a ∨ a ∈ s.d.ready ∧ s.skip a = true ∧
    u.outcomes a = some { taskID := a, status := "skipped", batch := s.batchNum }

theorem skips (h : Core req allowed s) :
    Skips s (s.d.ready.foldl partitionReady (s, [], false)).1 := by
  have values : ∀ acc, acc = s.d.ready.foldl partitionReady (s, [], false) →
      acc.1.batchNum = s.batchNum ∧ ∀ a, acc.1.outcomes a = s.outcomes a ∨ a ∈ s.d.ready ∧
        acc.1.outcomes a = some { taskID := a, status := "skipped", batch := s.batchNum } := by
    rintro _ rfl
    refine foldl_history (fun past (acc : State × List String × Bool) =>
      acc.1.batchNum = s.batchNum ∧ ∀ a, acc.1.outcomes a = s.outcomes a ∨ a ∈ past ∧
        acc.1.outcomes a = some { taskID := a, status := "skipped", batch := s.batchNum }) ?_
      ⟨rfl, fun _ => .inl rfl⟩
    rintro past id rest acc - ⟨hbatch, ih⟩
    unfold partitionReady
    split_ifs
    · refine ⟨hbatch, fun a => ?_⟩
      simp only [settle_outcomes, Function.update_apply, hbatch]
      grind
    · exact ⟨hbatch, fun a => (ih a).imp_right (.imp_left (List.mem_append_left _))⟩
  have part := partitioned h
  intro a
  refine ((values _ rfl).2 a).imp_right ?_
  rintro ⟨hready, hnew⟩
  have hdone := (part.core.recorded a).mp (by simp [hnew])
  have hold := (h.tracks.mem_ready.mp hready).2.1
  refine ⟨hready, ?_, hnew⟩
  have := (part.done a).mp hdone
  grind

/-- Between two waves the tasks that can run are the ready ones whose skip flag is not set. -/
theorem Core.runnable_iff (h : Core req allowed s) {id : String} :
    id ∈ s.d.ready.filter (!s.skip ·) ↔ Runnable req s id := by
  rw [List.mem_filter, h.tracks.mem_ready]
  constructor
  · rintro ⟨⟨known, unfinished, deps⟩, hskip⟩
    refine ⟨known, unfinished, fun a ha => h.completed_of_not_failed (deps a ha) fun hf => ?_⟩
    simp [(h.skip id).mpr ⟨a, ha, hf⟩] at hskip
  · rintro ⟨known, unfinished, deps⟩
    refine ⟨⟨known, unfinished, fun a ha => ?_⟩, ?_⟩
    · obtain ⟨o, ho, _⟩ := deps a ha
      exact (h.recorded a).mp (by simp [ho])
    · simp only [Bool.not_eq_true', Bool.eq_false_iff, ne_eq, h.skip]
      rintro ⟨a, ha, o, ho, hfailed⟩
      obtain ⟨o', ho', hcompleted⟩ := deps a ha
      obtain rfl := Option.some.inj (ho.symm.trans ho')
      exact hfailed hcompleted

/-- The three ways a round can end: the loop is left, only skipped tasks were ready, or a wave of
runnable tasks starts. -/
theorem round_cases_skips (h : Core req allowed s) : ∃ u, Settled req allowed s u ∧ Skips s u ∧
    (round s = { u with pc := .exit } ∧
        (u = s ∧ s.d.remaining ≤ 0 ∨ 0 < s.d.remaining ∧ s.d.ready = [] ∨ s.ctxErr.isSome) ∨
      round s = u ∧ u.d.remaining < s.d.remaining ∨
      ∃ wave, s.ctxErr = none ∧ wave = s.d.ready.filter (!s.skip ·) ∧ wave ≠ [] ∧ wave.Nodup ∧
        (∀ id ∈ wave, Runnable req u id) ∧ u.d.remaining ≤ s.d.remaining ∧
        round s = { u with
          executionOrder := u.executionOrder ++ [wave]
          pc := .dispatching wave fun _ => .spawned }) := by
  have part := partitioned h
  have hskips := skips h
  unfold round
  generalize s.d.ready.foldl partitionReady (s, [], false) = acc at part hskips ⊢
  obtain ⟨u, wave, skipped⟩ := acc
  have hwave : wave = s.d.ready.filter (!s.skip ·) := part.toDispatch
  have hremaining : u.d.remaining - wave.length = s.d.remaining - s.d.ready.length :=
    part.remaining
  have hctx : u.ctxErr = s.ctxErr := part.toSettled.ctxErr_eq
  by_cases hleft : s.d.remaining > 0
  swap
  · exact ⟨s, .refl h, fun _ => .inl rfl, .inl ⟨by simp [hleft], .inl ⟨rfl, not_lt.mp hleft⟩⟩⟩
  refine ⟨u, part.toSettled, hskips, ?_⟩
  rw [if_pos hleft]
  dsimp only
  split_ifs with hempty hskipped hcanceled
  · right; left
    have hnone : s.d.ready ≠ [] := by
      rintro e
      have hs : skipped = s.d.ready.any s.skip := part.skipped
      simp [hs, e] at hskipped
    have := List.length_pos_iff.mpr hnone
    rw [hempty, List.length_nil] at hremaining
    exact ⟨rfl, by omega⟩
  · left
    refine ⟨rfl, .inr (.inl ⟨hleft, ?_⟩)⟩
    have hs : skipped = s.d.ready.any s.skip := part.skipped
    have hall := hwave.symm.trans hempty
    rw [hs] at hskipped
    apply List.eq_nil_iff_forall_not_mem.mpr
    intro id hid
    have skips : s.skip id = true := by simpa using List.filter_eq_nil_iff.mp hall id hid
    exact hskipped (List.any_eq_true.mpr ⟨id, hid, skips⟩)
  · left
    exact ⟨rfl, .inr (.inr (hctx ▸ hcanceled))⟩
  · right; right
    refine ⟨wave, by simpa [hctx] using hcanceled, hwave, hempty,
      hwave ▸ s.d.ready_nodup.filter _, ?_, ?_, rfl⟩
    · intro id hid
      rw [hwave] at hid
      have hskip : s.skip id = false := by simpa using (List.mem_filter.mp hid).2
      obtain ⟨hknown, hc, hdeps⟩ := h.runnable_iff.mp hid
      refine ⟨hknown, ?_, fun a ha => part.completed a (hdeps a ha)⟩
      rw [part.done]
      simp [hc, hskip]
    · have : wave.length ≤ s.d.ready.length := hwave ▸ List.length_filter_le ..
      omega

/-- The three ways a round can end, without what it records. -/
theorem round_cases (h : Core req allowed s) : ∃ u, Settled req allowed s u ∧
    (round s = { u with pc := .exit } ∧
        (u = s ∧ s.d.remaining ≤ 0 ∨ 0 < s.d.remaining ∧ s.d.ready = [] ∨ s.ctxErr.isSome) ∨
      round s = u ∧ u.d.remaining < s.d.remaining ∨
      ∃ wave, wave ≠ [] ∧ wave.Nodup ∧ (∀ id ∈ wave, Runnable req u id) ∧
        u.d.remaining ≤ s.d.remaining ∧
        round s = { u with
          executionOrder := u.executionOrder ++ [wave]
          pc := .dispatching wave fun _ => .spawned }) := by
  obtain ⟨u, settled, _, ends⟩ := round_cases_skips h
  refine ⟨u, settled, ends.imp_right (.imp_right ?_)⟩
  rintro ⟨wave, _, _, starts⟩
  exact ⟨wave, starts⟩

/-! ## Steps and runs -/

/-- The facts about finished tasks do not depend on where the main goroutine is. -/
theorem Core.frame (h : Core req allowed s) {order : List (List String)} {batch : ℕ}
    {ctxErr : Option CtxErr} {pc : PC} :
    Core req allowed { s with executionOrder := order, batchNum := batch, ctxErr, pc } :=
  ⟨h.tracks, h.recorded, h.skip, h.verdict⟩

theorem Runnable.frame {id : String} (h : Runnable req s id) {order : List (List String)}
    {batch : ℕ} {ctxErr : Option CtxErr} {pc : PC} :
    Runnable req { s with executionOrder := order, batchNum := batch, ctxErr, pc } id :=
  ⟨h.known, h.unfinished, h.deps⟩

namespace Running

theorem start {d : DAG} (tracks : Tracks req d) (empty : d.completed = []) :
    Running req allowed (start d) :=
  ⟨.start tracks empty, List.nodup_nil, fun _ h => absurd h List.not_mem_nil, trivial⟩

/-- Between two waves nothing is out. -/
theorem idle (h : Core req allowed s) (hactive : s.pc.active = []) (hobeys : s.pc.Obeys allowed) :
    Running req allowed s :=
  ⟨h, by simp [hactive], by simp [hactive], hobeys⟩

theorem round (h : Running req allowed s) (hpc : s.pc = .head) :
    Running req allowed (round s) := by
  obtain ⟨u, settled, ⟨e, _⟩ | ⟨e, _⟩ | ⟨wave, _, nodup, runnable, _, e⟩⟩ := round_cases h.core
  · exact e ▸ idle settled.core.frame rfl trivial
  · have hu : u.pc = .head := settled.pc_eq.trans hpc
    exact e ▸ idle settled.core (by simp [hu, PC.active]) (by simp [hu, PC.Obeys])
  · exact e ▸ ⟨settled.core.frame, nodup, fun id hid => (runnable id hid).frame, by
      simp [PC.Obeys]⟩

theorem setSlot (h : Running req allowed s) {wave : List String} {slots : String → Slot}
    {id : String} {slot : Slot} (hpc : s.pc = .dispatching wave slots)
    (ok : ∀ err, slot = .returned (.error err) → allowed id "failed") :
    Running req allowed { s with pc := .dispatching wave (Function.update slots id slot) } := by
  obtain ⟨core, nodup, runnable, obeys⟩ := h
  rw [hpc] at nodup runnable obeys
  refine ⟨core.frame, nodup, fun a ha => (runnable a ha).frame, ?_⟩
  intro a ha err herr
  rw [Function.update_apply] at herr
  split_ifs at herr with e
  · exact e ▸ ok err herr
  · exact obeys a ha err herr

theorem spawned (h : Running req allowed s) {wave : List String} {slots : String → Slot}
    (hpc : s.pc = .dispatching wave slots) (returned : ∀ id ∈ wave, (slots id).isReturned) :
    Spawned req allowed s slots wave (wave.foldl (spawnWait slots) (s, [])) := by
  obtain ⟨core, nodup, runnable, obeys⟩ := h
  rw [hpc] at nodup runnable obeys
  exact Scheduler.spawned core nodup runnable returned obeys

theorem spawnWaits (h : Running req allowed s) {wave : List String} {slots : String → Slot}
    (hpc : s.pc = .dispatching wave slots) (returned : ∀ id ∈ wave, (slots id).isReturned) :
    Running req allowed { (wave.foldl (spawnWait slots) (s, [])).1 with
      pc := .waiting (wave.foldl (spawnWait slots) (s, [])).2 [] } := by
  have sp := h.spawned hpc returned
  obtain ⟨_, nodup, runnable, _⟩ := h
  rw [hpc] at nodup runnable
  generalize wave.foldl (spawnWait slots) (s, []) = acc at sp ⊢
  refine ⟨sp.core.frame, ?_, ?_, by simp [PC.Obeys]⟩
  · simpa [PC.active] using nodup.sublist sp.sublist
  · intro id hid
    have hpending : id ∈ acc.2.map Prod.fst := by simpa [PC.active] using hid
    have hrun := runnable id (sp.sublist.subset hpending)
    refine Runnable.frame ⟨hrun.known, ?_, fun a ha => sp.completed a (hrun.deps a ha)⟩
    rw [sp.done]
    simp [hrun.unfinished, hpending]

/-- A goroutine that leaves `WaitFor` stays out until its result is received. -/
theorem active_waitReturns {pending : List (String × String)} {id dispID : String}
    (hmem : (id, dispID) ∈ pending) (waitCh : List WaitResult)
    (result : Except GoError TaskResult) :
    (PC.waiting (pending.erase (id, dispID)) (waitCh ++ [⟨id, result⟩])).active.Perm
      (PC.waiting pending waitCh).active := by
  have split := ((List.perm_cons_erase hmem).map Prod.fst).append_right
    (waitCh.map (·.specID))
  refine List.Perm.trans ?_ split.symm
  simp only [PC.active, List.map_append, List.map_cons, List.map_nil, List.cons_append]
  rw [← List.append_assoc]
  exact List.perm_append_singleton ..

theorem waitReturns (h : Running req allowed s) {pending : List (String × String)}
    {waitCh : List WaitResult} {id dispID : String} {result : Except GoError TaskResult}
    (hpc : s.pc = .waiting pending waitCh) (hmem : (id, dispID) ∈ pending)
    (ok : allowed id (waitStatus result)) :
    Running req allowed { s with
      pc := .waiting (pending.erase (id, dispID)) (waitCh ++ [⟨id, result⟩]) } := by
  obtain ⟨core, nodup, runnable, obeys⟩ := h
  rw [hpc] at nodup runnable obeys
  have perm := active_waitReturns hmem waitCh result
  refine ⟨core.frame, perm.nodup_iff.mpr nodup, ?_, ?_⟩
  · intro a ha
    exact (runnable a (perm.mem_iff.mp ha)).frame
  · intro wr hwr
    rcases List.mem_append.mp hwr with hold | hnew
    · exact obeys wr hold
    · obtain rfl := List.mem_singleton.mp hnew
      exact ok

theorem receive (h : Running req allowed s) {pending : List (String × String)} {wr : WaitResult}
    {waitCh : List WaitResult} (hpc : s.pc = .waiting pending (wr :: waitCh)) :
    Running req allowed { collect s wr with pc := .waiting pending waitCh } := by
  obtain ⟨core, nodup, runnable, obeys⟩ := h
  rw [hpc] at nodup runnable obeys
  obtain ⟨error, e⟩ := collect_eq_settle s wr
  rw [e]
  have hrun := runnable wr.specID (by simp [PC.active])
  have settled := (Settled.refl core).settle error hrun.known hrun.unfinished
    (.inr ⟨hrun.deps, obeys wr List.mem_cons_self⟩) decide_eq_true_iff
  simp only [PC.active, List.map_cons] at nodup runnable
  have rest := List.nodup_middle.mp nodup
  refine ⟨settled.core.frame, rest.of_cons, ?_, fun r hr => obeys r (List.mem_cons_of_mem _ hr)⟩
  intro a ha
  simp only [PC.active] at ha
  have old := runnable a (by grind)
  have hne : a ≠ wr.specID := fun e => (List.nodup_cons.mp rest).1 (e ▸ ha)
  refine Runnable.frame ⟨old.known, ?_, fun d hd => settled.completed d (old.deps d hd)⟩
  simp [old.unfinished, hne]

theorem round_live (h : Core req allowed s) (hpc : s.pc = .head) (err : Option CtxErr) :
    (Scheduler.round s).pc ≠ .returned err := by
  obtain ⟨u, settled, ⟨e, _⟩ | ⟨e, _⟩ | ⟨wave, _, _, _, _, e⟩⟩ := round_cases h
  · simp [e]
  · simp [e, settled.pc_eq, hpc]
  · simp [e]

/-- One step of a running call that does not return, in an environment that obeys `allowed`. -/
theorem goesOn (h : Running req allowed s) {a : Act} (ok : a.Obeys allowed)
    (live : ∀ err, s.pc ≠ .returned err) (hs : Scheduler.step req s a = some t) (hret : a ≠ .ret) :
    Running req allowed t ∧ ∀ err, t.pc ≠ .returned err := by
  obtain ⟨err, rfl, hlive, _, rfl⟩ | ⟨rfl, hpc, rfl⟩ |
    ⟨id, wave, slots, rfl, hpc, hslot, hid, rfl⟩ |
    ⟨id, result, wave, slots, rfl, hpc, hslot, _, rfl⟩ | ⟨wave, slots, rfl, hpc, returned, rfl⟩ |
    ⟨id, result, dispID, pending, waitCh, rfl, hpc, hmem, rfl⟩ |
    ⟨pending, wr, waitCh, rfl, hpc, rfl⟩ | ⟨rfl, hpc, rfl⟩ | ⟨rfl, hpc, rfl⟩ := step_cases hs
  · exact ⟨⟨h.core.frame, h.nodup, fun id hid => (h.runnable id hid).frame, h.obeys⟩, live⟩
  · exact ⟨h.round hpc, round_live h.core hpc⟩
  · exact ⟨h.setSlot hpc nofun, nofun⟩
  · refine ⟨h.setSlot hpc ?_, nofun⟩
    rintro err ⟨⟩
    exact ok
  · exact ⟨h.spawnWaits hpc returned, nofun⟩
  · exact ⟨h.waitReturns hpc hmem ok, nofun⟩
  · exact ⟨h.receive hpc, nofun⟩
  · exact ⟨idle h.core.frame rfl trivial, nofun⟩
  · exact absurd rfl hret

/-- A call returns from a state past the loop. -/
theorem returns (hs : Scheduler.step req s .ret = some t) : s.pc = .exit ∧
    t = { s with outcomes := fillCanceled req.ids s.outcomes, pc := .returned s.ctxErr } := by
  have cases := step_cases hs
  simpa only [reduceCtorEq, false_and, exists_false, false_or, true_and] using cases

/-- One step of a running call, in an environment that obeys `allowed`. -/
theorem step (h : Running req allowed s) {a : Act} (ok : a.Obeys allowed)
    (live : ∀ err, s.pc ≠ .returned err) (hs : step req s a = some t) : Inv req allowed t := by
  by_cases hret : a = .ret
  · subst hret
    obtain ⟨hpc, rfl⟩ := returns hs
    exact .inr ⟨s, h, hpc, rfl⟩
  · exact .inl (h.goesOn ok live hs hret)

/-- No task is lost: what is finished or out stays finished or out. -/
theorem step_keeps (h : Running req allowed s) {a : Act} (hs : Scheduler.step req s a = some t)
    {id : String} (hid : id ∈ s.d.completed ∨ id ∈ s.pc.active) :
    id ∈ t.d.completed ∨ id ∈ t.pc.active := by
  obtain ⟨err, rfl, _, _, rfl⟩ | ⟨rfl, hpc, rfl⟩ | ⟨id', wave, slots, rfl, hpc, _, _, rfl⟩ |
    ⟨id', result, wave, slots, rfl, hpc, _, _, rfl⟩ | ⟨wave, slots, rfl, hpc, returned, rfl⟩ |
    ⟨id', result, dispID, pending, waitCh, rfl, hpc, hmem, rfl⟩ |
    ⟨pending, wr, waitCh, rfl, hpc, rfl⟩ | ⟨rfl, hpc, rfl⟩ | ⟨rfl, hpc, rfl⟩ := step_cases hs
  · exact hid
  · have hid : id ∈ s.d.completed := by simpa [hpc, PC.active] using hid
    obtain ⟨u, settled, ⟨e, _⟩ | ⟨e, _⟩ | ⟨wave, _, _, _, _, e⟩⟩ := round_cases h.core
    all_goals
      rw [e]
      exact .inl (settled.finished id hid)
  · rw [hpc] at hid
    exact hid
  · rw [hpc] at hid
    exact hid
  · have sp := h.spawned hpc returned
    rw [hpc] at hid
    generalize wave.foldl (spawnWait slots) (s, []) = acc at sp ⊢
    have done := sp.done id
    simp only [PC.active, List.map_nil, List.append_nil] at hid ⊢
    grind
  · rw [hpc] at hid
    exact hid.imp_right (active_waitReturns hmem waitCh result).mem_iff.mpr
  · obtain ⟨error, e⟩ := collect_eq_settle s wr
    rw [hpc] at hid
    simp only [e, settle_d, DAG.mem_complete_completed, PC.active, List.map_cons] at hid ⊢
    grind
  · simpa [hpc, PC.active] using hid
  · simpa [hpc, PC.active] using hid

end Running

theorem step_returned {a : Act} {err : Option CtxErr} (hpc : s.pc = .returned err) :
    step req s a = none := by
  cases a <;> simp [step, hpc]

theorem Inv.step {a : Act} (h : Inv req allowed s) (ok : a.Obeys allowed)
    (hs : step req s a = some t) : Inv req allowed t := by
  obtain ⟨running, live⟩ | ⟨u, _, _, rfl⟩ := h
  · exact running.step ok live hs
  · rw [step_returned rfl] at hs
    cases hs

/-! ## What is allowed -/

section Allowed

variable {allowed' : String → String → Prop}
  (weaken : ∀ id status, allowed id status → allowed' id status)

include weaken in
theorem Running.mono (h : Running req allowed s) : Running req allowed' s := by
  obtain ⟨⟨tracks, recorded, skip, verdict⟩, nodup, runnable, obeys⟩ := h
  refine ⟨⟨tracks, recorded, skip, ?_⟩, nodup, runnable, ?_⟩
  · intro id o ho
    exact (verdict id o ho).imp_right (.imp_right (weaken id o.status))
  · cases hpc : s.pc with
    | dispatching wave slots =>
      rw [hpc] at obeys
      exact fun id hid err herr => weaken id _ (obeys id hid err herr)
    | waiting pending waitCh =>
      rw [hpc] at obeys
      exact fun wr hwr => weaken wr.specID _ (obeys wr hwr)
    | head | exit | returned => trivial

include weaken in
theorem Inv.mono (h : Inv req allowed s) : Inv req allowed' s := by
  obtain ⟨running, live⟩ | ⟨u, running, hpc, e⟩ := h
  · exact .inl ⟨running.mono weaken, live⟩
  · exact .inr ⟨u, running.mono weaken, hpc, e⟩

/-- A task is recorded as completed only if this was allowed. -/
theorem Inv.allowed_of_completed (h : Inv req allowed s) {id : String} (hc : s.Completed id) :
    allowed id "completed" := by
  have ran : ∀ u, Running req allowed u → u.Completed id → allowed id "completed" := by
    rintro u running ⟨o, ho, completed⟩
    rcases running.core.verdict id o ho with ⟨skipped, -⟩ | ⟨-, ok⟩
    · rw [skipped] at completed
      exact absurd completed (by decide)
    · exact completed ▸ ok
  obtain ⟨running, -⟩ | ⟨u, running, -, rfl⟩ := h
  · exact ran s running hc
  · -- What is filled in at the end is cancelled.
    obtain ⟨o, ho, completed⟩ := hc
    apply ran u running
    simp only [fillCanceled] at ho
    split at ho
    · rename_i recorded
      cases ho
      exact ⟨o, recorded, completed⟩
    · split_ifs at ho
      cases ho
      simp at completed

end Allowed

/-! ## Each task is dispatched at most once, after its dependencies -/

/-- The goroutines inside `Dispatch` belong to the wave. -/
def PC.Placed : PC → Prop
  | .dispatching wave slots => ∀ id, slots id = .calling → id ∈ wave
  | _ => True

theorem PC.Placed.step {a : Act} (h : s.pc.Placed) (running : Running req allowed s)
    (hs : step req s a = some t) : t.pc.Placed := by
  obtain ⟨err, -, _, _, rfl⟩ | ⟨-, hpc, rfl⟩ | ⟨id', wave, slots, -, hpc, _, hid', rfl⟩ |
    ⟨id', result, wave, slots, -, hpc, _, _, rfl⟩ | ⟨wave, slots, -, hpc, _, rfl⟩ |
    ⟨id', result, dispID, pending, waitCh, -, hpc, _, rfl⟩ |
    ⟨pending, wr, waitCh, -, hpc, rfl⟩ | ⟨-, hpc, rfl⟩ | ⟨-, hpc, rfl⟩ := step_cases hs
  · exact h
  · obtain ⟨u, settled, ⟨e, _⟩ | ⟨e, _⟩ | ⟨wave, _, _, _, _, e⟩⟩ := round_cases running.core
    · simp [e, PC.Placed]
    · simp [e, settled.pc_eq, hpc, PC.Placed]
    · simp [e, PC.Placed]
  · rw [hpc] at h
    intro id hslot
    rw [Function.update_apply] at hslot
    split_ifs at hslot with e
    · exact e ▸ hid'
    · exact h id hslot
  · rw [hpc] at h
    intro id hslot
    rw [Function.update_apply] at hslot
    split_ifs at hslot
    exact h id hslot
  all_goals trivial

/-- The task a step calls `Dispatch` for. -/
def Act.dispatched : Act → Option String
  | .callDispatch id => some id
  | _ => none

/-- The calls made so far. A goroutine that has not called yet belongs to a task that no earlier
goroutine called for. -/
structure Called (calls : List String) (s : State) : Prop where
  nodup : calls.Nodup
  out : ∀ id ∈ calls, id ∈ s.d.completed ∨ id ∈ s.pc.active
  spawned : ∀ wave slots, s.pc = .dispatching wave slots →
    ∀ id ∈ wave, slots id = .spawned → id ∉ calls

theorem Called.step {calls : List String} {a : Act} (h : Called calls s)
    (running : Running req allowed s) (hs : step req s a = some t) :
    Called (calls ++ a.dispatched.toList) t := by
  have kept : ∀ id ∈ calls, id ∈ t.d.completed ∨ id ∈ t.pc.active := fun id hid =>
    running.step_keeps hs (h.out id hid)
  obtain ⟨err, rfl, _, _, rfl⟩ | ⟨rfl, hpc, rfl⟩ | ⟨id', wave, slots, rfl, hpc, hslot, hid', rfl⟩ |
    ⟨id', result, wave, slots, rfl, hpc, hslot, _, rfl⟩ | ⟨wave, slots, rfl, hpc, _, rfl⟩ |
    ⟨id', result, dispID, pending, waitCh, rfl, hpc, _, rfl⟩ |
    ⟨pending, wr, waitCh, rfl, hpc, rfl⟩ | ⟨rfl, hpc, rfl⟩ | ⟨rfl, hpc, rfl⟩ := step_cases hs
  all_goals simp only [Act.dispatched, Option.toList_none, Option.toList_some, List.append_nil]
  · exact ⟨h.nodup, kept, h.spawned⟩
  · refine ⟨h.nodup, kept, ?_⟩
    intro wave slots hwave id hid _ hcalled
    have hdone : id ∈ s.d.completed := by simpa [hpc, PC.active] using h.out id hcalled
    obtain ⟨u, settled, ⟨e, _⟩ | ⟨e, _⟩ | ⟨wave', _, _, runnable, _, e⟩⟩ := round_cases running.core
    · simp [e] at hwave
    · simp [e, settled.pc_eq, hpc] at hwave
    · simp only [e, PC.dispatching.injEq] at hwave
      obtain ⟨rfl, -⟩ := hwave
      exact (runnable id hid).unfinished (settled.finished id hdone)
  · have hnew := h.spawned wave slots hpc id' hid' hslot
    refine ⟨h.nodup.append (List.nodup_singleton _) (by simpa using hnew), ?_, ?_⟩
    · intro id hid
      rcases List.mem_append.mp hid with hold | hlast
      · exact kept id hold
      · exact .inr (List.mem_singleton.mp hlast ▸ hid')
    · rintro _ _ ⟨⟩ id hid hspawned
      rw [Function.update_apply] at hspawned
      split_ifs at hspawned with e
      have := h.spawned wave slots hpc id hid hspawned
      simp [this, e]
  · refine ⟨h.nodup, kept, ?_⟩
    rintro _ _ ⟨⟩ id hid hspawned
    rw [Function.update_apply] at hspawned
    split_ifs at hspawned
    exact h.spawned wave slots hpc id hid hspawned
  all_goals exact ⟨h.nodup, kept, nofun⟩

theorem Act.obeys_any (a : Act) : a.Obeys fun _ _ => True := by
  unfold Act.Obeys
  split <;> trivial

/-- What holds in every state a call can reach, whatever its environment does. -/
theorem reachable {order : req.MapOrder} {d : DAG} (valid : req.validate order = .ok d)
    {acts : List Act} (h : run (step req) (start d) acts = some s) :
    Inv req (fun _ _ => True) s ∧ Called (acts.filterMap Act.dispatched) s := by
  obtain ⟨_, tracks, empty⟩ := validate_ok valid
  refine run_history
    (fun past s => Inv req (fun _ _ => True) s ∧ Called (past.filterMap Act.dispatched) s)
    ?_ h ⟨.inl ⟨.start tracks empty, nofun⟩, List.nodup_nil, nofun, nofun⟩
  rintro past s a t ⟨inv, called⟩ hs
  refine ⟨inv.step a.obeys_any hs, ?_⟩
  obtain ⟨running, _⟩ | ⟨u, _, _, rfl⟩ := inv
  · have := called.step running hs
    rw [List.filterMap_append]
    cases hd : a.dispatched <;> simpa [hd] using this
  · rw [step_returned rfl] at hs
    cases hs

/-- In every run of a validated request, `Dispatch` is called at most once for each task, and at
the moment it is called for a task, every dependency of the task has the outcome "completed". -/
theorem dispatch_once_after_dependencies {order : req.MapOrder} {d : DAG}
    (valid : req.validate order = .ok d) {acts : List Act}
    (h : run (step req) (start d) acts = some s) :
    (acts.filterMap Act.dispatched).Nodup ∧
      ∀ id u, step req s (.callDispatch id) = some u →
        id ∈ req.ids ∧ ∀ task ∈ req.tasks, task.id = id → ∀ a ∈ task.dependsOn,
          ∃ o, s.outcomes a = some o ∧ o.status = "completed" := by
  obtain ⟨inv, called⟩ := reachable valid h
  refine ⟨called.nodup, ?_⟩
  intro id u hs
  obtain ⟨running, _⟩ | ⟨_, _, _, rfl⟩ := inv
  swap
  · rw [step_returned rfl] at hs
    cases hs
  have runnable : Runnable req s id := by
    have cases := step_cases hs
    simp only [reduceCtorEq, false_and, exists_false, false_or, or_false, Act.callDispatch.injEq]
      at cases
    obtain ⟨_, wave, slots, rfl, hpc, _, hid, _⟩ := cases
    exact running.runnable id (by rw [hpc]; exact hid)
  refine ⟨runnable.known, ?_⟩
  rintro task htask rfl a ha
  apply runnable.deps
  rwa [ScheduleRequest.deps_of_mem (validate_ok valid).1.nodup htask]

/-- A diamond whose middle task lists a dependency twice. -/
def diamond : ScheduleRequest where
  tasks := [
    { id := "a" }, { id := "b", dependsOn := ["a", "a"] }, { id := "c", dependsOn := ["a"] },
    { id := "d", dependsOn := ["b", "c"] }]

def diamondOrder : diamond.MapOrder where
  tasks := ["c", "a", "d", "b"]
  nodes := ["b", "d", "a", "c"]
  tasks_perm := by decide
  nodes_perm := by decide

/-- The first wave of the diamond and half of the second. -/
def diamondRun : List Act := [
  .round, .callDispatch "a", .dispatchReturns "a" (.ok "a"), .spawnWaits,
  .waitReturns "a" (.ok { taskID := "a", status := .completed }), .receive, .endWave, .round,
  .callDispatch "c", .dispatchReturns "c" (.ok "c")]

theorem dispatch_once_after_dependencies_diamond :
    ∃ d s, diamond.validate diamondOrder = .ok d ∧
      run (step diamond) (start d) diamondRun = some s ∧
      (step diamond s (.callDispatch "b")).isSome ∧
      (diamondRun.filterMap Act.dispatched).Nodup ∧
      ∃ o, s.outcomes "a" = some o ∧ o.status = "completed" := by
  have enabled : ((diamond.validate diamondOrder).toOption.bind fun d =>
      (run (step diamond) (start d) diamondRun).bind fun s =>
        step diamond s (.callDispatch "b")).isSome = true := by decide
  obtain ⟨u, hu⟩ := Option.isSome_iff_exists.mp enabled
  obtain ⟨d, hd, hu⟩ := Option.bind_eq_some_iff.mp hu
  obtain ⟨s, hs, hu⟩ := Option.bind_eq_some_iff.mp hu
  have valid := toOption_eq_some.mp hd
  have safe := dispatch_once_after_dependencies valid hs
  exact ⟨d, s, valid, hs, by simp [hu], safe.1,
    (safe.2 "b" u hu).2 { id := "b", dependsOn := ["a", "a"] } (by decide) rfl "a" (by decide)⟩

end Daedalus.Scheduler
