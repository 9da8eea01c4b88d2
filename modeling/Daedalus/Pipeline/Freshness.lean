import Daedalus.Pipeline.Sessions

/-!
# Which dispatch a result answers

`Sound` follows every result from the request it answers to the call that uses it: it always
answers a request for the task it is used for. Nothing says that this request was published by
the same call. `Dispatch` keeps the task ID of the request as it is, and the collector keeps
results for good, so a call that reuses an ID is served the result of an earlier call
(`stale_result`). As long as no ID is published twice, every result is fresh.
-/
namespace Daedalus.Pipeline

open Foundation A2A Dispatch Orchestrator Scheduler

variable {w v : World} {k : ℕ} {log : List (ℕ × String)}

/-- The result answers a request for the task it names. -/
def Answers (log : List (ℕ × String)) (r : TaskResult) : Prop :=
  ∃ k, log[r.origin]? = some (k, r.taskID)

/-- The tasks in the goroutines of session `k` were published by it, under their own IDs, and
the results received answer requests for them. -/
def PCSound (log : List (ℕ × String)) (k : ℕ) : PC → Prop
  | .dispatching _ slots => ∀ id dispID, slots id = .returned (.ok dispID) →
    dispID = id ∧ (k, id) ∈ log
  | .waiting pending waitCh =>
    (∀ entry ∈ pending, entry.2 = entry.1 ∧ (k, entry.1) ∈ log) ∧
    ∀ wr ∈ waitCh, (k, wr.specID) ∈ log ∧
      ∀ r, wr.result = .ok r → r.taskID = wr.specID ∧ Answers log r
  | _ => True

structure SessionSound (log : List (ℕ × String)) (collector : Collector) (k : ℕ) (s : Session) :
    Prop where
  named : "" ∉ s.req.ids
  inv : Scheduler.Inv s.req (fun _ _ => True) s.state
  pc : PCSound log k s.state.pc
  answers : ∀ id dispID, s.answers id = some (.ok dispID) → dispID = id ∧ (k, id) ∈ log
  waits : ∀ id c, s.waits id = some c → ∃ p, collector.calls c = some ⟨id, p⟩

structure Sound (w : World) : Prop where
  collector : Orchestrator.Inv w.collector
  holds : Holds (Answers w.log) w.collector
  sessions : ∀ k s, w.sessions[k]? = some s → SessionSound w.log w.collector k s

theorem Answers.mono {r : TaskResult} (h : Answers log r) (more : List (ℕ × String)) :
    Answers (log ++ more) r := by
  obtain ⟨k, hk⟩ := h
  exact ⟨k, by rw [List.getElem?_append_left (List.getElem?_eq_some_iff.mp hk).1, hk]⟩

theorem PCSound.mono {pc : PC} (h : PCSound log k pc) (more : List (ℕ × String)) :
    PCSound (log ++ more) k pc := by
  cases pc with
  | head | exit | returned => trivial
  | dispatching wave slots =>
    intro id dispID hslot
    exact (h id dispID hslot).imp_right (List.mem_append_left _)
  | waiting pending waitCh =>
    refine ⟨fun entry he => (h.1 entry he).imp_right (List.mem_append_left _), ?_⟩
    intro wr hwr
    refine (h.2 wr hwr).imp (List.mem_append_left _) fun hr r hok => ?_
    exact (hr r hok).imp_right (·.mono more)

/-- What is known of a session survives any step of the others. -/
theorem SessionSound.mono {s : Session} {collector collector' : Collector}
    (h : SessionSound log collector k s) (more : List (ℕ × String))
    (kept : ∀ c id p, collector.calls c = some ⟨id, p⟩ →
      ∃ p', collector'.calls c = some ⟨id, p'⟩) : SessionSound (log ++ more) collector' k s := by
  refine ⟨h.named, h.inv, h.pc.mono more, ?_, ?_⟩
  · intro id dispID ha
    exact (h.answers id dispID ha).imp_right (List.mem_append_left _)
  · intro id c hc
    obtain ⟨p, hp⟩ := h.waits id c hc
    exact kept c id p hp

theorem Sound.new : Sound .new :=
  ⟨.new, .new, fun k s hs => by simp [World.new] at hs⟩

/-! ## Steps of a session -/

section Session

variable {req : ScheduleRequest} {s t : State}

theorem PCSound.alone {b : Scheduler.Act} (h : PCSound log k s.pc)
    (running : Running req (fun _ _ => True) s) (alone : Alone b)
    (hs : Scheduler.step req s b = some t) : PCSound log k t.pc := by
  obtain ⟨err, rfl, _, _, rfl⟩ | ⟨rfl, hpc, rfl⟩ | ⟨id', wave, slots, rfl, hpc, _, _, rfl⟩ |
    ⟨id', result, wave, slots, rfl, hpc, _, _, rfl⟩ | ⟨wave, slots, rfl, hpc, returned, rfl⟩ |
    ⟨id', result, dispID, pending, waitCh, rfl, hpc, _, rfl⟩ |
    ⟨pending, wr, waitCh, rfl, hpc, rfl⟩ | ⟨rfl, hpc, rfl⟩ | ⟨rfl, hpc, rfl⟩ :=
    Scheduler.step_cases hs
  · exact h
  · obtain ⟨u, settled, ⟨e, _⟩ | ⟨e, _⟩ | ⟨wave, _, _, _, _, e⟩⟩ := round_cases running.core
    · simp [e, PCSound]
    · simp [e, settled.pc_eq, hpc, PCSound]
    · simp [e, PCSound]
  · rw [hpc] at h
    intro id dispID hslot
    rw [Function.update_apply] at hslot
    split_ifs at hslot
    exact h id dispID hslot
  · cases alone
  · obtain ⟨core, nodup, runnable, obeys⟩ := running
    rw [hpc] at nodup runnable obeys h
    have sp : Spawned req _ s slots wave _ := spawned core nodup runnable returned obeys
    exact ⟨fun entry hentry => h entry.1 entry.2 (sp.dispatched entry hentry), by simp⟩
  · cases alone
  · rw [hpc] at h
    exact ⟨h.1, fun r hr => h.2 r (List.mem_cons_of_mem _ hr)⟩
  · trivial
  · trivial

theorem PCSound.dispatchReturns {id : String} {result : Except GoError String}
    (h : PCSound log k s.pc)
    (answer : ∀ dispID, result = .ok dispID → dispID = id ∧ (k, id) ∈ log)
    (hs : Scheduler.step req s (.dispatchReturns id result) = some t) : PCSound log k t.pc := by
  have cases := Scheduler.step_cases hs
  simp only [reduceCtorEq, false_and, exists_false, false_or, or_false,
    Scheduler.Act.dispatchReturns.injEq] at cases
  obtain ⟨_, _, wave, slots, ⟨rfl, rfl⟩, hpc, _, _, rfl⟩ := cases
  rw [hpc] at h
  intro id' dispID hslot
  rw [Function.update_apply] at hslot
  split_ifs at hslot with e
  · cases hslot
    exact e ▸ answer dispID rfl
  · exact h id' dispID hslot

theorem PCSound.waitReturns {id : String} {result : Except GoError TaskResult}
    (h : PCSound log k s.pc) (answer : ∀ r, result = .ok r → r.taskID = id ∧ Answers log r)
    (hs : Scheduler.step req s (.waitReturns id result) = some t) : PCSound log k t.pc := by
  have cases := Scheduler.step_cases hs
  simp only [reduceCtorEq, false_and, exists_false, false_or, or_false,
    Scheduler.Act.waitReturns.injEq] at cases
  obtain ⟨_, _, dispID, pending, waitCh, ⟨rfl, rfl⟩, hpc, hmem, rfl⟩ := cases
  rw [hpc] at h
  refine ⟨fun entry he => h.1 entry (List.mem_of_mem_erase he), ?_⟩
  intro wr hwr
  rcases List.mem_append.mp hwr with hold | hnew
  · exact h.2 wr hold
  · obtain rfl := List.mem_singleton.mp hnew
    exact ⟨(h.1 _ hmem).2, answer⟩

end Session

/-! ## Steps of the world -/

/-- A published request keeps the ID of its task. -/
theorem dispatchTask_ok {req : ScheduleRequest} {env : DispatchEnv} {id dispID : String}
    (named : "" ∉ req.ids)
    (h : (dispatchTask req env id).2.map Prod.fst = .ok dispID) :
    dispID = id ∧ (dispatchTask req env id).1 ≠ [] := by
  unfold dispatchTask at h ⊢
  split at h
  · rename_i task hfind
    have hid : task.id = id := by simpa using List.find?_some hfind
    have given : id ≠ "" := by
      rintro rfl
      exact named (List.mem_map.mpr ⟨task, List.mem_of_find?_eq_some hfind, hid⟩)
    obtain ⟨⟨taskID, subject⟩, hok, rfl⟩ : ∃ p, (dispatch env { task.toTaskSpec with id := id }
        req.contextID).2 = .ok p ∧ p.1 = dispID := by
      cases hd : (dispatch env { task.toTaskSpec with id := id } req.contextID).2 with
      | error err => simp [hd, Except.map] at h
      | ok p => exact ⟨p, rfl, by simpa [hd, Except.map] using h⟩
    exact ⟨dispatch_keeps_id given hok, by simp [(dispatch_ok hok).2]⟩
  · cases h

theorem sessions_set {sessions : List Session} {s u : Session} {j : ℕ}
    (hj : (sessions.set k s)[j]? = some u) : j = k ∧ u = s ∨ sessions[j]? = some u := by
  rw [List.getElem?_set] at hj
  grind

/-- Replacing one session, when the log may have grown. -/
theorem Sound.setSession (h : Sound w) {s : Session} (hsessions : v.sessions = w.sessions.set k s)
    (hcollector : v.collector = w.collector) (more : List (ℕ × String))
    (hlog : v.log = w.log ++ more) (hs : SessionSound v.log v.collector k s) : Sound v := by
  refine ⟨hcollector ▸ h.collector, ?_, ?_⟩
  · rw [hcollector, hlog]
    exact h.holds.mono fun r hr => hr.mono more
  · intro j u hu
    rw [hsessions] at hu
    obtain ⟨rfl, rfl⟩ | hold := sessions_set hu
    · exact hs
    · rw [hlog]
      exact (h.sessions j u hold).mono more fun c id p hp => ⟨p, hcollector ▸ hp⟩

theorem Sound.collect (h : Sound w) {b : Orchestrator.Act} {collector : Collector}
    (hb : ∀ r, b.builds = some r → Answers w.log r)
    (hs : Orchestrator.step w.collector b = some collector) : Sound { w with collector } := by
  refine ⟨h.collector.step hs, h.holds.step h.collector hb hs, ?_⟩
  intro j u hu
  have kept := (h.sessions j u hu).mono [] fun c id p hp => calls_kept h.collector hs hp
  simpa using kept

/-- The results handed to the collector answer the request they were published for. -/
theorem answers_resultMsg {number : ℕ} {entry : ℕ × String} {task : Task} {r : TaskResult}
    (hentry : log[number]? = some entry) (hid : task.id = entry.2)
    (hr : receiveResult (resultMsg number entry.2 task) = some r) : Answers log r := by
  obtain ⟨-, -, horigin, htaskID⟩ := receiveResult_spec rfl hr
  have own : r.taskID = entry.2 := by
    rw [htaskID]
    split_ifs
    · exact hid
    · exact extractSuffix_append "agent.results." entry.2
  refine ⟨entry.1, ?_⟩
  rw [horigin, own]
  exact hentry

theorem answers_statusMsg {number : ℕ} {entry : ℕ × String} {status : TaskStatus} {r : TaskResult}
    (hentry : log[number]? = some entry)
    (hr : receiveStatus (statusMsg number entry.2 status) = some r) : Answers log r := by
  obtain ⟨-, rfl⟩ := receiveStatus_spec rfl hr
  have own : extractSuffix (statusMsg number entry.2 status).subject "agent.status." = entry.2 :=
    extractSuffix_append "agent.status." entry.2
  refine ⟨entry.1, ?_⟩
  rw [own]
  exact hentry

theorem SessionSound.advance {s : Session} {collector : Collector} {b : Scheduler.Act}
    {state : State} (h : SessionSound log collector k s)
    (hs : Scheduler.step s.req s.state b = some state)
    (hpc : Running s.req (fun _ _ => True) s.state → PCSound log k state.pc) :
    SessionSound log collector k { s with state } := by
  refine ⟨h.named, h.inv.step b.obeys_any hs, ?_, h.answers, h.waits⟩
  obtain ⟨running, _⟩ | ⟨u, _, _, e⟩ := h.inv
  · exact hpc running
  · rw [step_returned (congrArg State.pc e)] at hs
    cases hs

theorem SessionSound.answer {s : Session} {collector : Collector} {env : DispatchEnv} {id : String}
    (h : SessionSound log collector k s) :
    SessionSound (log ++ (dispatchTask s.req env id).1.map fun _ => (k, id)) collector k
      (s.answer id ((dispatchTask s.req env id).2.map Prod.fst)) := by
  refine ⟨h.named, h.inv, h.pc.mono _, ?_, h.waits⟩
  intro id' dispID ha
  simp only [Session.answer, Function.update_apply] at ha
  split_ifs at ha with e
  · obtain ⟨hid, hsent⟩ := dispatchTask_ok h.named (Option.some_injective _ ha)
    obtain ⟨m, hm⟩ := List.exists_mem_of_ne_nil _ hsent
    subst e
    exact ⟨hid, List.mem_append_right _ (List.mem_map.mpr ⟨m, hm, rfl⟩)⟩
  · exact (h.answers id' dispID ha).imp_right (List.mem_append_left _)

theorem SessionSound.wait {s : Session} {collector : Collector} {id : String} {c : ℕ}
    (h : SessionSound log collector k s) (hc : ∃ p, collector.calls c = some ⟨id, p⟩) :
    SessionSound log collector k (s.wait id c) := by
  refine ⟨h.named, h.inv, h.pc, h.answers, ?_⟩
  intro id' c' hc'
  simp only [Session.wait, Function.update_apply] at hc'
  split_ifs at hc' with e
  · cases hc'
    exact e ▸ hc
  · exact h.waits id' c' hc'

theorem Sound.step {a : Act} (h : Sound w) (hs : step w a = some v) : Sound v := by
  obtain ⟨req, order, d, -, hd, rfl⟩ | ⟨k, b, s, state, -, hk, alone, hstate, rfl⟩ |
    ⟨k, id, env, s, -, hk, rfl⟩ | ⟨k, id, s, result, state, -, hk, hanswer, hstate, rfl⟩ |
    ⟨k, id, s, pending, waitCh, dispID, -, hk, hpc, hmem, rfl⟩ |
    ⟨k, id, s, c, id', result, state, -, hk, hc, hcall, hstate, rfl⟩ |
    ⟨b, collector, hb, rfl, origin⟩ := step_cases hs
  · obtain ⟨valid, tracks, empty⟩ := validate_ok hd
    refine ⟨h.collector, h.holds, ?_⟩
    intro j u hu
    rcases getElem?_snoc.mp hu with old | ⟨-, rfl⟩
    · exact h.sessions j u old
    · exact ⟨valid.nonempty, .inl ⟨.start tracks empty, nofun⟩, trivial, nofun, nofun⟩
  · have hsession := h.sessions k s hk
    refine h.setSession rfl rfl [] (List.append_nil _).symm (hsession.advance hstate ?_)
    exact fun running => hsession.pc.alone running alone hstate
  · exact h.setSession rfl rfl _ rfl (h.sessions k s hk).answer
  · have hsession := h.sessions k s hk
    refine h.setSession rfl rfl [] (List.append_nil _).symm (hsession.advance hstate fun _ => ?_)
    exact hsession.pc.dispatchReturns
      (fun dispID e => hsession.answers id dispID (e ▸ hanswer)) hstate
  · -- Registering is a step of the collector, followed by a note in the session.
    have hcollect := h.collect (b := .waitFor dispID) (fun _ hr => by cases hr) rfl
    have hsession := hcollect.sessions k s hk
    have hpc := hpc ▸ hsession.pc
    obtain rfl : dispID = id := (hpc.1 _ hmem).1
    exact hcollect.setSession rfl rfl [] (List.append_nil _).symm
      (hsession.wait (waitFor_call w.collector dispID))
  · have hsession := h.sessions k s hk
    obtain ⟨p, hp⟩ := hsession.waits id c hc
    obtain rfl : id' = id := by
      rw [hcall] at hp
      cases hp
      rfl
    refine h.setSession rfl rfl [] (List.append_nil _).symm (hsession.advance hstate fun _ => ?_)
    exact hsession.pc.waitReturns (fun r e => h.holds.returned c id' r (e ▸ hcall)) hstate
  · apply h.collect ?_ hb
    intro r hr
    obtain ⟨_, none⟩ | ⟨_, none⟩ | ⟨number, entry, task, _, hentry, hid, rfl⟩ |
      ⟨number, entry, status, _, hentry, rfl⟩ := origin
    · simp [none] at hr
    · simp [none] at hr
    · exact answers_resultMsg hentry hid hr
    · exact answers_statusMsg hentry hr

/-! ## Freshness -/

/-- The task and the result that a call takes from `waitCh` next. -/
def Session.nextResult (s : Session) : Option (String × TaskResult) :=
  match s.state.pc with
  | .waiting _ (⟨id, .ok r⟩ :: _) => some (id, r)
  | _ => none

/-- A result that makes a task completed answers the request this call published for the task. -/
def Fresh (w : World) : Prop :=
  ∀ k (s : Session) id (r : TaskResult), w.sessions[k]? = some s →
    s.nextResult = some (id, r) → outcomeStatus r.status = "completed" →
      w.log[r.origin]? = some (k, id)

/-- Every ID is published for the first time. -/
def FirstPublication (w : World) : Act → Prop
  | .publish _ id _ => id ∉ w.log.map Prod.snd
  | _ => True

/-- The ID that an action publishes. -/
def Act.published : Act → Option String
  | .publish _ id _ => some id
  | _ => none

instance (w : World) (a : Act) : Decidable (FirstPublication w a) :=
  decidable_of_iff (∀ id ∈ a.published, id ∉ w.log.map Prod.snd) (by
    cases a <;> simp [FirstPublication, Act.published])

theorem dispatchTask_published_le (req : ScheduleRequest) (env : DispatchEnv) (id : String) :
    (dispatchTask req env id).1.length ≤ 1 := by
  unfold dispatchTask
  split
  · exact dispatch_published_le ..
  · simp

theorem nodup_log {a : Act} (h : (w.log.map Prod.snd).Nodup) (first : FirstPublication w a)
    (hs : step w a = some v) : (v.log.map Prod.snd).Nodup := by
  obtain ⟨_, _, _, -, -, rfl⟩ | ⟨_, _, _, _, -, -, -, -, rfl⟩ | ⟨k, id, env, s, rfl, -, rfl⟩ |
    ⟨_, _, _, _, _, -, -, -, -, rfl⟩ | ⟨_, _, _, _, _, _, -, -, -, -, rfl⟩ |
    ⟨_, _, _, _, _, _, _, -, -, -, -, -, rfl⟩ | ⟨_, _, -, rfl, -⟩ := step_cases hs
  case inr.inr.inl =>
    have first : id ∉ w.log.map Prod.snd := first
    have hle := dispatchTask_published_le s.req env id
    generalize (dispatchTask s.req env id).1 = published at hle ⊢
    match published, hle with
    | [], _ => simpa using h
    | [m], _ =>
      rw [List.map_append]
      exact h.append (List.nodup_singleton id) (by simpa using first)
  all_goals exact h

/-- In a sound world without repeated IDs, the request a result answers is the one its call
published. -/
theorem Sound.fresh (h : Sound w) (nodup : (w.log.map Prod.snd).Nodup) : Fresh w := by
  intro k s id r hk hnext _
  have hpc := (h.sessions k s hk).pc
  unfold Session.nextResult at hnext
  split at hnext
  · rename_i pending id' r' waitCh e
    cases hnext
    rw [e] at hpc
    obtain ⟨hpublished, hresult⟩ := hpc.2 _ List.mem_cons_self
    obtain ⟨hid, k', hk'⟩ := hresult r rfl
    have same := List.inj_on_of_nodup_map nodup hpublished (List.mem_of_getElem? hk') hid.symm
    rw [hk', ← same]
  · cases hnext

/-- In every run in which no task ID is published a second time, every state is fresh. -/
theorem fresh_of_first_publication {acts : List Act} (h : run step .new acts = some w)
    (first : Meets step FirstPublication .new acts) : Fresh w := by
  have inv : Sound w ∧ (w.log.map Prod.snd).Nodup := by
    refine first.invariant (fun w => Sound w ∧ (w.log.map Prod.snd).Nodup) ?_ h ⟨.new, ?_⟩
    · rintro w a v ⟨sound, nodup⟩ ok hs
      exact ⟨sound.step hs, nodup_log nodup ok hs⟩
    · exact List.nodup_nil
  exact inv.1.fresh inv.2

/-- A registry and a publisher that accept everything. -/
def accepting : DispatchEnv where
  generateID := .ok "0f3a"
  routeByScore _ _ := .ok "agent.tasks.coder"
  publishJSON _ _ := none

def first : ScheduleRequest := { tasks := [{ id := "a" }], contextID := "first" }

/-- Another request that uses the ID again and has a task that depends on it. -/
def second : ScheduleRequest where
  tasks := [{ id := "a" }, { id := "b", dependsOn := ["a"] }]
  contextID := "second"

def inOrder (req : ScheduleRequest) : req.MapOrder := ⟨req.ids, req.ids, .rfl, .rfl⟩

/-- Dispatching `a` in session `k`, up to its goroutine entering `WaitFor`. -/
def dispatchA (k : ℕ) : List Act := [
  .advance k .round, .advance k (.callDispatch "a"), .publish k "a" accepting,
  .dispatchReturns k "a", .advance k .spawnWaits, .waitFor k "a"]

/-- The first request, from the call to its return. -/
def firstRun : List Act :=
  Act.schedule first (inOrder first) :: dispatchA 0 ++
  [Act.result 0 { id := "a", status := { state := .completed } }, Act.collect (.receive 0),
   Act.waitReturns 0 "a", Act.advance 0 .receive, Act.advance 0 .endWave, Act.advance 0 .round,
   Act.advance 0 .ret]

/-- The second request, up to the result it takes for `a`. -/
def secondRun : List Act :=
  Act.schedule second (inOrder second) :: dispatchA 1 ++ [Act.waitReturns 1 "a"]

theorem fresh_of_first_publication_firstRun :
    ∃ w s id r, run step .new (firstRun.take 10) = some w ∧ w.sessions[0]? = some s ∧
      s.nextResult = some (id, r) ∧ w.log[r.origin]? = some (0, id) := by
  have observed : ((run step .new (firstRun.take 10)).bind fun w =>
      (w.sessions[0]?.bind Session.nextResult)) =
      some ("a", ⟨"a", .completed, some { id := "a", status := { state := .completed } }, 0⟩) := by
    decide
  obtain ⟨w, hw, observed⟩ := Option.bind_eq_some_iff.mp observed
  obtain ⟨s, hs, hnext⟩ := Option.bind_eq_some_iff.mp observed
  have fresh := fresh_of_first_publication hw (by decide)
  exact ⟨w, s, _, _, hw, hs, hnext, fresh 0 s _ _ hs hnext (by decide)⟩

/-- The second call takes the result of the first one, although nothing was ever published for
its own request, and goes on to dispatch the task that depends on it. -/
theorem stale_result :
    ∃ w, run step .new (firstRun ++ secondRun) = some w ∧ ¬ Fresh w ∧
      (run step w [.advance 1 .receive, .advance 1 .endWave, .advance 1 .round,
        .advance 1 (.callDispatch "b")]).isSome := by
  have observed : ((run step .new (firstRun ++ secondRun)).bind fun w =>
      (w.sessions[1]?.bind Session.nextResult).map fun next => (next, w.log)) =
      some (("a", ⟨"a", .completed, some { id := "a", status := { state := .completed } }, 0⟩),
        [(0, "a"), (1, "a")]) := by decide
  have released : (run step .new (firstRun ++ secondRun ++ [.advance 1 .receive,
      .advance 1 .endWave, .advance 1 .round, .advance 1 (.callDispatch "b")])).isSome := by
    decide +kernel
  obtain ⟨w, hw, observed⟩ := Option.bind_eq_some_iff.mp observed
  obtain ⟨next, taken, e⟩ := Option.map_eq_some_iff.mp observed
  obtain ⟨rfl, hlog⟩ := Prod.mk.inj e
  obtain ⟨s, hs, hnext⟩ := Option.bind_eq_some_iff.mp taken
  obtain ⟨v, hv⟩ := Option.isSome_iff_exists.mp released
  obtain ⟨w', hw', goesOn⟩ := run_append.mp hv
  obtain rfl : w' = w := Option.some_injective _ (hw'.symm.trans hw)
  refine ⟨w', hw, fun fresh => ?_, by simp [goesOn]⟩
  have own := fresh 1 s _ _ hs hnext (by decide)
  simp [hlog] at own

end Daedalus.Pipeline
