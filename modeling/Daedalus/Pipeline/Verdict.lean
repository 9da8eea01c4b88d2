import Daedalus.Pipeline.Payload

/-!
# Whether a failure is final

One message, its deliveries, and a collector that receives what they send. The handler publishes
a failed status whenever an attempt fails, also when the message will be delivered again, and the
collector takes it for a final outcome. A retry that succeeds then contradicts what a caller was
told (`verdict_reversed`). Verdicts are final as long as an attempt that can be repeated does
not fail in the agent.

The collector depends on the handler through the messages alone, so a delivery is a single step
and the messages it sent can be received at any time from then on.
-/
namespace Daedalus.Pipeline

open Foundation A2A Orchestrator Proxy Queue Prog

/-- The message on its way through the queue, and the collector. -/
structure Line where
  life : Life
  collector : Collector

def Line.new : Line := ⟨.new, .new⟩

inductive LineAct where
  | deliver (es : Trace)
  | collect (a : Orchestrator.Act)

/-- The collector receives only what was sent for the task. -/
def lineStep (cfg : Config) (req : SendMessageRequest) (s : Line) : LineAct → Option Line
  | .deliver es => (deliver cfg req s.life es).map fun life => { s with life }
  | .collect a =>
    if Fed s.life.deliveries (chooseTaskID req) a then
      (Orchestrator.step s.collector a).map fun collector => { s with collector }
    else none

/-- A failed call settles the task. -/
structure Final (req : SendMessageRequest) (s : Line) : Prop where
  /-- When a call has returned a failure, no delivery publishes a completed result. -/
  settled : ∀ c r, s.collector.calls c = some ⟨chooseTaskID req, .returned (.ok r)⟩ →
    r.status = .failed → ∀ subject task, Sent s.life.deliveries subject (.task task) →
      task.status.state ≠ .completed
  /-- All calls that return a result return the same status. -/
  unanimous : ∀ c c' r r', s.collector.calls c = some ⟨chooseTaskID req, .returned (.ok r)⟩ →
    s.collector.calls c' = some ⟨chooseTaskID req, .returned (.ok r')⟩ → r.status = r'.status

/-- The publication of a task was sent although its acknowledgement got lost. -/
def isUnconfirmed : String × Payload × Published → Bool
  | (_, .task _, .unconfirmed _) => true
  | _ => false

/-- The request has no text, so that every attempt fails; or the delivery is the last one or free
of ACP errors, and its result does not get stored unacknowledged. -/
def Decisive (req : SendMessageRequest) (s : Line) : LineAct → Prop
  | .deliver es => req.message.extractPromptText = "" ∨
    ((s.life.deliveries.length + 1 < defaultMaxDeliver → ∀ e ∈ es, ¬ isAcpError e) ∧
      ∀ pub ∈ publications es, ¬ isUnconfirmed pub)
  | .collect _ => True

instance Decisive.decidable (req : SendMessageRequest) (s : Line) :
    ∀ a, Decidable (Decisive req s a)
  | .deliver es => inferInstanceAs (Decidable (_ ∨ (_ → ∀ e ∈ es, _) ∧ ∀ pub ∈ publications es, _))
  | .collect _ => isTrue trivial

/-! ## Verdicts -/

/-- The outcome that the collector reads from a payload. -/
def verdict : Payload → Option TaskState
  | .task task => some task.status.state
  | .status status => if isTerminal status.state then some status.state else none

/-- One of the executions sent a message with this outcome. -/
def Verdict (traces : List Trace) (v : TaskState) : Prop :=
  ∃ subject payload, Sent traces subject payload ∧ verdict payload = some v

section Verdicts

variable {traces : List Trace} {es : Trace} {v : TaskState} {req : SendMessageRequest}

theorem verdict_nil : ¬ Verdict [] v := by
  rintro ⟨_, _, ⟨_, hes, _⟩, _⟩
  cases hes

theorem verdict_snoc : Verdict (traces ++ [es]) v ↔ Verdict traces v ∨ Verdict [es] v := by
  simp only [Verdict, Sent, List.mem_append, or_and_right, exists_or]

/-- What the collector builds for the task has the outcome of a message that was sent. -/
theorem verdict_of_fed {a : Orchestrator.Act} {id : String} {r : TaskResult}
    (fed : Fed traces id a) (hr : a.builds = some r) (hid : r.taskID = id) :
    Verdict traces r.status := by
  cases a with
  | handleResult msg =>
    obtain ⟨task, hdata, sent⟩ := fed r hr hid
    obtain ⟨hstatus, -⟩ := receiveResult_spec hdata hr
    exact ⟨_, _, sent, by rw [verdict, hstatus]⟩
  | handleStatus msg =>
    obtain ⟨status, hdata, sent⟩ := fed r hr hid
    obtain ⟨terminal, rfl⟩ := receiveStatus_spec hdata hr
    exact ⟨_, _, sent, by rw [verdict, if_pos terminal]⟩
  | waitFor | receive | ctxDone | cleanUp | storeStatus => simp [Act.builds] at hr

theorem verdict_statusPub (taskID : String) (state : TaskState) (message : Option Message)
    (timestamp : String) (p : Published) :
    verdict (statusPub taskID state message timestamp p).2.1 =
      if isTerminal state then some state else none := rfl

theorem verdict_resultPub (taskID : String) (task : Task) (p : Published) :
    verdict (resultPub taskID task p).2.1 = some task.status.state := rfl

/-- The outcomes one execution can send: failed, when something is at fault and it returns an
error, or completed, when it returns none or the acknowledgement of its result got lost. -/
theorem verdict_of_exit {result : Except GoError Unit} (h : Exit req es result)
    (hv : Verdict [es] v) :
    (v = .failed ∧ Faulty req es ∧ ∃ err, result = .error err) ∨
    (v = .completed ∧ req.message.extractPromptText ≠ "" ∧
      (result = .ok () ∨ ∃ pub ∈ publications es, isUnconfirmed pub)) := by
  obtain ⟨subject, payload, ⟨_, hes, pub, hpub, -, rfl, sent⟩, hv⟩ := hv
  obtain rfl := List.mem_singleton.mp hes
  cases h with
  | rejected out published => simp [published] at hpub
  | ended t p let_in published ending =>
    have listed := hpub
    rw [published] at listed
    rcases List.mem_cons.mp listed with rfl | listed
    · rw [verdict_statusPub] at hv
      cases hv
    cases ending with
    | failed why err t' q =>
      obtain rfl := List.mem_singleton.mp listed
      rw [verdict_statusPub] at hv
      exact .inl ⟨(Option.some.inj hv).symm, why, err, rfl⟩
    | unpublished text content t' metadata q err refused =>
      obtain rfl := List.mem_singleton.mp listed
      rw [verdict_resultPub] at hv
      refine .inr ⟨(Option.some.inj hv).symm, text, .inr ⟨_, hpub, ?_⟩⟩
      cases q with
      | acked => cases refused
      | lost err' => cases sent
      | unconfirmed err' => rfl
    | done text content t' t'' metadata q =>
      refine .inr ⟨?_, text, .inl rfl⟩
      rcases List.mem_pair.mp listed with rfl | rfl
      · rw [verdict_resultPub] at hv
        exact (Option.some.inj hv).symm
      · rw [verdict_statusPub] at hv
        exact (Option.some.inj hv).symm

/-- The same for every configuration: without a publisher there are no verdicts. -/
theorem verdict_of_replay {cfg : Config} {result : Except GoError Unit}
    (h : replay (handle cfg (.ok req)) es = some result) (hv : Verdict [es] v) :
    (v = .failed ∧ Faulty req es ∧ ∃ err, result = .error err) ∨
    (v = .completed ∧ req.message.extractPromptText ≠ "" ∧
      (result = .ok () ∨ ∃ pub ∈ publications es, isUnconfirmed pub)) := by
  cases hp : cfg.publisher with
  | true => exact verdict_of_exit (handle_exit hp h) hv
  | false =>
    obtain ⟨_, _, ⟨_, hes, pub, hpub, _⟩, _⟩ := hv
    rw [List.mem_singleton.mp hes, quiet_handle hp es result h] at hpub
    cases hpub

end Verdicts

/-! ## The invariant -/

/-- The verdicts agree, and the collector holds nothing but verdicts. -/
structure LineInv (req : SendMessageRequest) (s : Line) : Prop where
  inv : Inv s.collector
  holds : Holds (fun r => r.taskID = chooseTaskID req → Verdict s.life.deliveries r.status)
    s.collector
  /-- A request without text can only fail. -/
  hopeless : req.message.extractPromptText = "" → ∀ v, Verdict s.life.deliveries v → v = .failed
  /-- Any other is undecided until the message is removed. -/
  undecided : req.message.extractPromptText ≠ "" → s.life.removed = false →
    ∀ v, ¬ Verdict s.life.deliveries v
  agreed : ∀ v v', Verdict s.life.deliveries v → Verdict s.life.deliveries v' → v = v'

section Runs

variable {cfg : Config} {req : SendMessageRequest} {s t : Line} {acts : List LineAct}

theorem LineInv.new : LineInv req .new :=
  ⟨.new, .new, fun _ _ hv => absurd hv verdict_nil, fun _ _ _ => verdict_nil,
    fun _ _ hv => absurd hv verdict_nil⟩

/-- A decisive delivery of a request with text sends a verdict only when it removes the message,
and then a single one. -/
theorem removed_of_verdict {life : Life} {es : Trace}
    (hd : deliver cfg req s.life es = some life) (text : req.message.extractPromptText ≠ "")
    (ok : Decisive req s (.deliver es)) {v : TaskState} (hv : Verdict [es] v) :
    life.removed = true ∧ ∀ v', Verdict [es] v' → v' = v := by
  obtain ⟨-, result, hr, rfl⟩ := deliver_cases hd
  obtain ⟨clear, confirmed⟩ := ok.resolve_left text
  -- An attempt at fault is the last one, so `processMessage` terminates the message.
  have last : ∀ err, Faulty req es → result = .error err →
      (processMessage (s.life.deliveries.length + 1) result).removes = true := by
    rintro err (empty | ⟨e, he, herr⟩) rfl
    · exact absurd empty text
    · have : defaultMaxDeliver ≤ s.life.deliveries.length + 1 := by
        by_contra hlt
        exact clear (by omega) e he herr
      simp [processMessage, this, Disposition.removes]
  have only : ∀ {v}, Verdict [es] v → (v = .failed ∧ Faulty req es ∧ ∃ err, result = .error err) ∨
      (v = .completed ∧ result = .ok ()) := by
    intro v hv
    rcases verdict_of_replay hr hv with failed | ⟨hv, -, hok | ⟨pub, hpub, lost⟩⟩
    · exact .inl failed
    · exact .inr ⟨hv, hok⟩
    · exact absurd lost (confirmed pub hpub)
  rcases only hv with ⟨rfl, fault, err, herr⟩ | ⟨rfl, hok⟩
  · refine ⟨last err fault herr, fun v' hv' => ?_⟩
    rcases only hv' with ⟨e, -⟩ | ⟨-, hok⟩
    · exact e
    · simp [herr] at hok
  · refine ⟨by simp [hok, processMessage, Disposition.removes], fun v' hv' => ?_⟩
    rcases only hv' with ⟨-, -, err, herr⟩ | ⟨e, -⟩
    · simp [hok] at herr
    · exact e

/-- A request without text never completes. -/
theorem failed_of_verdict {life : Life} {es : Trace}
    (hd : deliver cfg req s.life es = some life) (empty : req.message.extractPromptText = "")
    {v : TaskState} (hv : Verdict [es] v) : v = .failed := by
  obtain ⟨-, result, hr, -⟩ := deliver_cases hd
  rcases verdict_of_replay hr hv with ⟨hv, -⟩ | ⟨-, text, -⟩
  · exact hv
  · exact absurd empty text

theorem LineInv.deliver {life : Life} {es : Trace} (h : LineInv req s)
    (hd : deliver cfg req s.life es = some life) (ok : Decisive req s (.deliver es)) :
    LineInv req { s with life } := by
  obtain ⟨here, result, -, e⟩ := deliver_cases hd
  have hlist : life.deliveries = s.life.deliveries ++ [es] := by rw [e]
  have hopeless : req.message.extractPromptText = "" →
      ∀ v, Verdict life.deliveries v → v = .failed := by
    intro empty v hv
    rw [hlist, verdict_snoc] at hv
    rcases hv with hv | hv
    · exact h.hopeless empty v hv
    · exact failed_of_verdict hd empty hv
  -- With text, nothing was decided before, so every verdict comes from this delivery.
  have fromLast : req.message.extractPromptText ≠ "" →
      ∀ v, Verdict life.deliveries v → Verdict [es] v := by
    intro text v hv
    rw [hlist, verdict_snoc] at hv
    exact hv.resolve_left (h.undecided text here v)
  refine ⟨h.inv, h.holds.mono fun r hr hid => ?_, hopeless, ?_, ?_⟩
  · change Verdict life.deliveries r.status
    rw [hlist]
    exact verdict_snoc.mpr (.inl (hr hid))
  · intro text hremoved v hv
    obtain ⟨gone, -⟩ := removed_of_verdict hd text ok (fromLast text v hv)
    simp [gone] at hremoved
  · intro v v' hv hv'
    by_cases text : req.message.extractPromptText = ""
    · rw [hopeless text v hv, hopeless text v' hv']
    · obtain ⟨-, single⟩ := removed_of_verdict hd text ok (fromLast text v' hv')
      exact single v (fromLast text v hv)

theorem LineInv.step {a : LineAct} (h : LineInv req s) (ok : Decisive req s a)
    (hs : lineStep cfg req s a = some t) : LineInv req t := by
  cases a with
  | deliver es =>
    obtain ⟨life, hd, rfl⟩ := Option.map_eq_some_iff.mp hs
    exact h.deliver hd ok
  | collect a =>
    simp only [lineStep] at hs
    split_ifs at hs with fed
    obtain ⟨collector, hc, rfl⟩ := Option.map_eq_some_iff.mp hs
    refine ⟨h.inv.step hc, h.holds.step h.inv ?_ hc, h.hopeless, h.undecided, h.agreed⟩
    intro r hr hid
    exact verdict_of_fed fed hr hid

/-- In every run in which no attempt fails in the agent that can still be repeated and no result is
stored unacknowledged, a failure is final and all calls agree. -/
theorem verdict_final (ok : Meets (lineStep cfg req) (Decisive req) .new acts)
    (h : run (lineStep cfg req) .new acts = some s) : Final req s := by
  have inv : LineInv req s :=
    Meets.invariant (LineInv req) (fun _ _ _ hs ok hstep => hs.step ok hstep) ok h .new
  have told : ∀ c r, s.collector.calls c = some ⟨chooseTaskID req, .returned (.ok r)⟩ →
      Verdict s.life.deliveries r.status := by
    intro c r hc
    obtain ⟨hid, hv⟩ := inv.holds.returned c _ r hc
    exact hv hid
  constructor
  · intro c r hc failed subject task sent completed
    have e := inv.agreed _ _ (told c r hc) ⟨subject, _, sent, rfl⟩
    simp [failed, completed] at e
  · intro c c' r r' hc hc'
    exact inv.agreed _ _ (told c r hc) (told c' r' hc')

end Runs

/-- The failed status of `failedTrace` as the collector sees it. -/
def failedMsg : Msg TaskStatus :=
  ⟨"agent.status.t", some
    { state := .failed, message := some (failMsg "t" (.wrap "proxy: acp session/new" noSession)),
      timestamp := "2" }, 0⟩

/-- The result is refused twice, and the last attempt fails. -/
def lastFails : List LineAct := [
  .deliver refusedTrace, .deliver refusedTrace, .deliver failedTrace,
  .collect (.handleStatus failedMsg), .collect (.storeStatus ⟨"t", .failed, none, 0⟩),
  .collect (.waitFor "t")]

theorem verdict_final_lastFails :
    ∃ s r, run (lineStep {} question) .new lastFails = some s ∧
      s.collector.calls 0 = some ⟨"t", .returned (.ok r)⟩ ∧ r.status = .failed ∧
      Final question s := by
  have observed : (run (lineStep {} question) .new lastFails).bind (returnedBy ·.collector 0) =
      some ("t", ⟨"t", .failed, none, 0⟩) := by decide
  obtain ⟨s, hs, hret⟩ := Option.bind_eq_some_iff.mp observed
  exact ⟨s, _, hs, returnedBy_eq_some.mp hret, rfl, verdict_final (by decide) hs⟩

/-- The first attempt cannot open a session, a caller learns of the failure, and the retry
succeeds. -/
def retried : List LineAct := [
  .collect (.waitFor "t"), .deliver failedTrace, .collect (.handleStatus failedMsg),
  .collect (.storeStatus ⟨"t", .failed, none, 0⟩), .collect (.receive 0),
  .deliver (answered .acked completedStatus), .collect (.handleResult answerMsg),
  .collect (.waitFor "t")]

/-- One call returns a failure, a later one returns the result of the retry. -/
theorem verdict_reversed :
    ∃ s r r', run (lineStep {} question) .new retried = some s ∧
      s.collector.calls 0 = some ⟨"t", .returned (.ok r)⟩ ∧ r.status = .failed ∧
      s.collector.calls 1 = some ⟨"t", .returned (.ok r')⟩ ∧ r'.status = .completed ∧
      Sent s.life.deliveries "agent.results.t" (.task answer) ∧ ¬ Final question s := by
  have observed : (run (lineStep {} question) .new retried).map (fun s =>
      (returnedBy s.collector 0, returnedBy s.collector 1,
        decide (Sent s.life.deliveries "agent.results.t" (.task answer)))) =
      some (some ("t", ⟨"t", .failed, none, 0⟩), some ("t", ⟨"t", .completed, some answer, 0⟩),
        true) := by decide
  obtain ⟨s, hs, e⟩ := Option.map_eq_some_iff.mp observed
  obtain ⟨first, second, sent⟩ := by simpa only [Prod.mk.injEq] using e
  rw [returnedBy_eq_some] at first second
  refine ⟨s, _, _, hs, first, rfl, second, rfl, of_decide_eq_true sent, fun final => ?_⟩
  have same := final.unanimous 0 1 _ _ first second
  cases same

end Daedalus.Pipeline
