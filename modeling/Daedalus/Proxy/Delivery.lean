import Daedalus.Foundation.Run
import Daedalus.Proxy.Handler
import Daedalus.Queue.Consumer

/-!
# The deliveries of one message

A message is delivered, handled, and delivered again after each `Nak`, until it is acknowledged
or terminated. Every delivery is an arbitrary execution of the handler. A waiting orchestrator can
learn the outcome if some delivery had its result acknowledged or tried to publish a failed
status. Two exits of the handler do neither, a refused result and a rejection by the shutdown check,
and `processMessage` counts them like any other failure.
-/
namespace Daedalus.Proxy

open Foundation A2A Queue Prog

/-- The deliveries made so far, and whether the message is gone. -/
structure Life where
  deliveries : List Trace
  removed : Bool

def Life.new : Life := ⟨[], false⟩

/-- One delivery: the handler runs, and `processMessage` decides. -/
def deliver (cfg : Config) (req : SendMessageRequest) (s : Life) (es : Trace) : Option Life :=
  if s.removed then none
  else (replay (handle cfg (.ok req)) es).map fun result =>
    { deliveries := s.deliveries ++ [es]
      removed := (processMessage (s.deliveries.length + 1) result).removes }

theorem deliver_cases {cfg : Config} {req : SendMessageRequest} {s t : Life} {es : Trace}
    (h : deliver cfg req s es = some t) : s.removed = false ∧
      ∃ result, replay (handle cfg (.ok req)) es = some result ∧
        t = ⟨s.deliveries ++ [es], (processMessage (s.deliveries.length + 1) result).removes⟩ := by
  unfold deliver at h
  split_ifs at h with here
  obtain ⟨result, hr, rfl⟩ := Option.map_eq_some_iff.mp h
  exact ⟨by simpa using here, result, hr, rfl⟩

/-- The task was published on its result subject, and the publisher confirmed it. -/
def isResult (req : SendMessageRequest) : String × Payload × Published → Bool
  | (subject, .task _, .acked) => subject = "agent.results." ++ chooseTaskID req
  | _ => false

/-- A failed status was handed to the publisher. -/
def isFailure (req : SendMessageRequest) : String × Payload × Published → Bool
  | (subject, .status status, _) =>
    subject = "agent.status." ++ chooseTaskID req && status.state = .failed
  | _ => false

/-- During some delivery a terminal outcome was made known. -/
def Learnable (req : SendMessageRequest) (deliveries : List Trace) : Prop :=
  ∃ es ∈ deliveries, ∃ pub ∈ publications es, isResult req pub ∨ isFailure req pub

instance (req : SendMessageRequest) (deliveries : List Trace) :
    Decidable (Learnable req deliveries) :=
  inferInstanceAs (Decidable (∃ es ∈ deliveries, ∃ pub ∈ publications es, _))

/-- The publisher answered the publication of a task by an error. -/
def isRefused : String × Payload × Published → Bool
  | (_, .task _, p) => p.err.isSome
  | _ => false

/-- The delivery was let in by the shutdown check and its result was not refused. -/
def Effective (es : Trace) : Prop := admitted es ∧ ∀ pub ∈ publications es, ¬ isRefused pub

section Exits

variable {cfg : Config} {req : SendMessageRequest} {es : Trace} {r : Except GoError Unit}

variable {taskID t : String} {state : TaskState} {message : Option Message} {task : Task}
  {p : Published}

theorem isResult_statusPub : isResult req (statusPub taskID state message t p) = false := rfl

theorem isRefused_statusPub : isRefused (statusPub taskID state message t p) = false := rfl

theorem isFailure_statusPub :
    isFailure req (statusPub (chooseTaskID req) state message t p) = decide (state = .failed) := by
  change (decide (_ = _) && decide _) = _
  rw [decide_eq_true rfl, Bool.true_and]

theorem isFailure_resultPub : isFailure req (resultPub taskID task p) = false := rfl

theorem isRefused_resultPub : isRefused (resultPub taskID task p) = p.err.isSome := rfl

theorem isResult_resultPub :
    isResult req (resultPub (chooseTaskID req) task p) = p.err.isNone := by
  cases p with
  | acked => exact decide_eq_true rfl
  | lost err => rfl
  | unconfirmed err => rfl

/-- With a publisher, a delivery makes an outcome known exactly when it is effective. -/
theorem Exit.learnable_iff (h : Exit req es r) :
    (∃ pub ∈ publications es, isResult req pub ∨ isFailure req pub) ↔ Effective es := by
  cases h with
  | rejected out published =>
    simp only [published, Effective, out]
    simp
  | ended t p let_in published ending =>
    simp only [Effective, published, let_in]
    cases ending with
    | failed why err t' q =>
      simp only [List.mem_cons, exists_eq_or_imp, forall_eq_or_imp, isResult_statusPub,
        isFailure_statusPub, isRefused_statusPub]
      simp
    | unpublished text content t' metadata q err refused =>
      simp only [List.mem_cons, exists_eq_or_imp, forall_eq_or_imp, isResult_statusPub,
        isFailure_statusPub, isRefused_statusPub, isResult_resultPub, isFailure_resultPub,
        isRefused_resultPub, refused]
      simp
    | done text content t' t'' metadata q =>
      simp only [List.mem_cons, exists_eq_or_imp, forall_eq_or_imp, isResult_statusPub,
        isFailure_statusPub, isRefused_statusPub, isResult_resultPub, isFailure_resultPub,
        isRefused_resultPub]
      simp [Published.err]

theorem delivery_learnable_iff (h : replay (handle cfg (.ok req)) es = some r) :
    (∃ pub ∈ publications es, isResult req pub ∨ isFailure req pub) ↔
      cfg.publisher = true ∧ Effective es := by
  cases hp : cfg.publisher with
  | true =>
    rw [(handle_exit hp h).learnable_iff]
    exact ⟨fun effective => ⟨rfl, effective⟩, And.right⟩
  | false => simp [quiet_handle hp es r h]

end Exits

section Runs

variable {cfg : Config} {req : SendMessageRequest} {traces : List Trace} {s : Life}

/-- Every delivery of a run is an execution of the handler. -/
theorem deliveries_replay (h : run (deliver cfg req) .new traces = some s) :
    s.deliveries = traces ∧ ∀ es ∈ traces, ∃ r, replay (handle cfg (.ok req)) es = some r := by
  refine run_history (fun past s => s.deliveries = past ∧
    ∀ es ∈ past, ∃ r, replay (handle cfg (.ok req)) es = some r) ?_ h ⟨rfl, by simp⟩
  rintro past s es t ⟨hpast, replayed⟩ hs
  obtain ⟨-, r, hr, rfl⟩ := deliver_cases hs
  refine ⟨by simp [hpast], ?_⟩
  intro es' hes'
  rcases List.mem_append.mp hes' with hold | hnew
  · exact replayed es' hold
  · exact ⟨r, List.mem_singleton.mp hnew ▸ hr⟩

/-- When the outcome of a message can be learned, at any point of its life and so also when it is
removed: there is a publisher, and some delivery was let in by the shutdown check and did not have
its result refused. -/
theorem learnable_iff_effective (h : run (deliver cfg req) .new traces = some s) :
    Learnable req s.deliveries ↔ cfg.publisher = true ∧ ∃ es ∈ traces, Effective es := by
  obtain ⟨e, replayed⟩ := deliveries_replay h
  rw [e]
  constructor
  · rintro ⟨es, hes, known⟩
    obtain ⟨r, hr⟩ := replayed es hes
    obtain ⟨hp, effective⟩ := (delivery_learnable_iff hr).mp known
    exact ⟨hp, es, hes, effective⟩
  · rintro ⟨hp, es, hes, effective⟩
    obtain ⟨r, hr⟩ := replayed es hes
    exact ⟨es, hes, (delivery_learnable_iff hr).mpr ⟨hp, effective⟩⟩

end Runs

/-- A request with a task ID and a text. -/
def question : SendMessageRequest where
  message := { messageID := "m", taskID := "t", role := "user", parts := [{ text := "hi" }] }

/-- An execution in which the agent answers; the publication of the result ends as given. -/
def answered (p : Published) (rest : Trace) : Trace := [
  ⟨.enter, true⟩, ⟨.now, "1"⟩,
  ⟨.publish "agent.status.t" (.status { state := .working, timestamp := "1" }), .acked⟩,
  ⟨.initOnce, none⟩, ⟨.newSession, .ok "s"⟩, ⟨.registerSession "s", ()⟩,
  ⟨.prompt "s" "hi", .ok "hello"⟩, ⟨.now, "2"⟩, ⟨.traceID, none⟩,
  ⟨.publish "agent.results.t" (.task (buildTask "t" "" "hello" "2" [])), p⟩] ++ rest ++
  [⟨.deregisterSession "s", ()⟩, ⟨.done, ()⟩]

def refusedTrace : Trace := answered (.lost (.new "nats: timeout")) []

def rejectedTrace : Trace := [⟨.enter, false⟩]

def noSession : GoError := .new "acp: client closed"

/-- An execution in which no session can be opened. -/
def failedTrace : Trace := [
  ⟨.enter, true⟩, ⟨.now, "1"⟩,
  ⟨.publish "agent.status.t" (.status { state := .working, timestamp := "1" }), .acked⟩,
  ⟨.initOnce, none⟩, ⟨.newSession, .error noSession⟩, ⟨.now, "2"⟩,
  ⟨.publish "agent.status.t" (.status
    { state := .failed, message := some (failMsg "t" (.wrap "proxy: acp session/new" noSession)),
      timestamp := "2" }), .acked⟩,
  ⟨.done, ()⟩]

/-- The completed status that follows an acknowledged result. -/
def completedStatus : Trace := [
  ⟨.now, "3"⟩,
  ⟨.publish "agent.status.t" (.status
    { state := .completed, message := some (resultMessage "t" "hello"),
      timestamp := "3" }), .acked⟩]

theorem learnable_iff_effective_retried :
    ∃ s, run (deliver {} question) .new
        [refusedTrace, answered .acked completedStatus] = some s ∧ s.removed = true ∧
      (Learnable question s.deliveries ↔
        ({} : Config).publisher = true ∧
          ∃ es ∈ [refusedTrace, answered .acked completedStatus], Effective es) := by
  have gone : (run (deliver {} question) .new
      [refusedTrace, answered .acked completedStatus]).map (·.removed) = some true := by decide
  obtain ⟨s, hs, removed⟩ := Option.map_eq_some_iff.mp gone
  exact ⟨s, hs, removed, learnable_iff_effective hs⟩

/-- A result that is refused twice and a shutdown on the last delivery: the message is
terminated, and nobody can learn what became of the task. -/
theorem lost_silently :
    ∃ s, run (deliver {} question) .new [refusedTrace, refusedTrace, rejectedTrace] = some s ∧
      s.removed = true ∧ ¬ Learnable question s.deliveries := by
  have gone : (run (deliver {} question) .new [refusedTrace, refusedTrace, rejectedTrace]).map
      (fun s => (s.removed, decide (Learnable question s.deliveries))) = some (true, false) := by
    decide
  obtain ⟨s, hs, e⟩ := Option.map_eq_some_iff.mp gone
  obtain ⟨removed, silent⟩ := Prod.mk.inj e
  exact ⟨s, hs, removed, of_decide_eq_false silent⟩

end Daedalus.Proxy
