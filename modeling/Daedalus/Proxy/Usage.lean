import Daedalus.ContextMgmt.Tracker
import Daedalus.Proxy.Graceful

/-!
# Context usage

The handler and its context tracker together: every call on the tracker that a `Handle` makes is
performed on the tracker, and what `GetMetrics` answers is what the tracker has. Compactions are
recorded by others, at any time.

As long as the agent gives no two calls in progress the same session, each result is published with
the usage of its own prompt and answer. The tracker knows no token limit, so that it selects the
strategy of an unused session for every session that it has; it has none whose call has returned.
-/
namespace Daedalus.Proxy.Metering

open Foundation Prog A2A ContextMgmt

/-! ## The handler with its tracker -/

structure Station where
  service : Service
  tracker : Tracker

def Station.new (tracker : Tracker) : Station := ⟨.new, tracker⟩

/-- What `Handle` sees of the metrics. -/
def view (m : SessionMetrics) : Metrics where
  currentTokens := m.currentTokens
  tokenLimit := m.tokenLimit
  turnCount := m.turnCount
  compactionCount := m.compactionCount
  usagePercent := m.usagePercent

/-- What a call of `Handle` does to the tracker, and when its answer is possible. -/
def effect (t : Tracker) : Event Ans → Option Tracker
  | ⟨.startSession sessionID taskID tokenLimit, _⟩ =>
    some (t.startSession sessionID taskID tokenLimit)
  | ⟨.updateTokens sessionID tokens, _⟩ => some (t.updateTokens sessionID tokens)
  | ⟨.getMetrics sessionID, metrics⟩ =>
    if metrics = (t.getMetrics sessionID).map view then some t else none
  | ⟨.endSession sessionID, _⟩ => some (t.endSession sessionID)
  | _ => some t

inductive Act where
  | service (a : ServiceAct)
  | recordCompaction (sessionID : String)

def meter (t : Tracker) : ServiceAct → Option Tracker
  | .call _ e => effect t e
  | _ => some t

def step (cfg : Config) (s : Station) : Act → Option Station
  | .service a =>
    (meter s.tracker a).bind fun tracker =>
    (serviceStep cfg s.service a).map fun service => { service, tracker }
  | .recordCompaction sessionID =>
    some { s with tracker := s.tracker.recordCompaction sessionID }

/-- The agent gives a new session an ID that no other call in progress has. -/
def Apart (s : Station) : Act → Prop
  | .service a => Distinct s.service a
  | .recordCompaction _ => True

instance (s : Station) (a : Act) : Decidable (Apart s a) :=
  match a with
  | .service a => inferInstanceAs (Decidable (Distinct s.service a))
  | .recordCompaction _ => isTrue trivial

/-! ## The usage of a call -/

/-- The estimate of the tokens of a prompt and its answer. -/
def approxTokens (prompt content : String) : ℤ := (prompt.utf8ByteSize + content.utf8ByteSize) / 4

/-- What a call has done with the tracker. -/
inductive Usage where
  | idle
  | created (sessionID : String)
  | started (sessionID : String)
  /-- The prompt has failed. -/
  | failed (sessionID : String)
  | answered (sessionID prompt content : String)
  | updated (sessionID prompt content : String)
  | read (sessionID prompt content : String) (metrics : Option Metrics)
  | ended

namespace Usage

/-- The session that the tracker has an entry for, with its tokens, turns and limit. -/
def entry : Usage → Option (String × ℤ × ℤ × ℤ)
  | .started id | .failed id | .answered id _ _ => some (id, 0, 0, 0)
  | .updated id prompt content | .read id prompt content _ =>
    some (id, approxTokens prompt content, 1, 0)
  | _ => none

def tracked (u : Usage) : Option String := u.entry.map (·.1)

/-- The prompt that was answered, and the answer. -/
def exchange : Usage → Option (String × String × String)
  | .answered id prompt content | .updated id prompt content | .read id prompt content _ =>
    some (id, prompt, content)
  | _ => none

end Usage

/-- The calls that matter neither to the tracker nor to what is reported of it. -/
def neutral : Event Ans → Bool
  | ⟨.newSession, .ok _⟩ | ⟨.prompt _ _, _⟩ | ⟨.startSession _ _ _, _⟩ | ⟨.updateTokens _ _, _⟩
  | ⟨.getMetrics _, _⟩ | ⟨.endSession _, _⟩ | ⟨.publish _ (.task _), _⟩ => false
  | _ => true

/-- The task carries the answer and the usage record. -/
structure Carries (task : Task) (content : String) (metrics : Option Metrics) : Prop where
  answer : ∃ m, task.status.message = some m ∧ m.parts = [{ text := content }]
  usage : task.metadata.lookup "contextUsage" = metrics.map contextUsage

/-- How `Handle` uses the tracker. -/
inductive Tracks : Usage → Event Ans → Usage → Prop
  | pass {u : Usage} {e : Event Ans} (quiet : neutral e) : Tracks u e u
  | create (id : String) : Tracks .idle ⟨.newSession, .ok id⟩ (.created id)
  | start (id taskID : String) : Tracks (.created id) ⟨.startSession id taskID 0, ()⟩ (.started id)
  | fail (id prompt : String) (err : GoError) :
    Tracks (.started id) ⟨.prompt id prompt, .error err⟩ (.failed id)
  | answer (id prompt content : String) :
    Tracks (.started id) ⟨.prompt id prompt, .ok content⟩ (.answered id prompt content)
  | update (id prompt content : String) :
    Tracks (.answered id prompt content) ⟨.updateTokens id (approxTokens prompt content), ()⟩
      (.updated id prompt content)
  | read (id prompt content : String) (metrics : Option Metrics) :
    Tracks (.updated id prompt content) ⟨.getMetrics id, metrics⟩ (.read id prompt content metrics)
  | publish (id prompt : String) {content : String} {metrics : Option Metrics} (subject : String)
    {task : Task} (p : Published) (carries : Carries task content metrics) :
    Tracks (.read id prompt content metrics) ⟨.publish subject (.task task), p⟩
      (.read id prompt content metrics)
  | finish {u : Usage} {id : String} (tracked : u.tracked = some id) :
    Tracks u ⟨.endSession id, ()⟩ .ended

section Handle

variable {cfg : Config} {taskID : String} {u : Usage}

/-- A part of `Handle` that does nothing with the tracker. -/
theorem passes {α : Type} {p : Proc α} (h : Calls (fun op => ∀ ans, neutral ⟨op, ans⟩) p) :
    Follows Tracks (fun u' _ => u' = u) u p :=
  h.follows fun _ ans quiet => .pass (quiet ans)

theorem neutral_publishStatus (state : TaskState) (message : Option Message) :
    Calls (fun op => ∀ ans, neutral ⟨op, ans⟩) (publishStatus cfg taskID state message) := by
  unfold publishStatus
  split_ifs
  · exact (calls_perform fun _ => rfl).bind fun _ =>
      (calls_perform fun _ => rfl).bind fun _ => calls_pure _
  · exact calls_pure _

theorem neutral_fail (err : GoError) :
    Calls (fun op => ∀ ans, neutral ⟨op, ans⟩) (fail cfg taskID err) :=
  (neutral_publishStatus _ _).bind fun _ => calls_pure _

theorem carries_buildTask (contextID content timestamp : String) (metrics : Option Metrics)
    (id : Option String) :
    Carries (buildTask taskID contextID content timestamp
      ((metrics.map fun m => ("contextUsage", contextUsage m)).toList ++
        (id.map fun id => ("trace_id", Value.str id)).toList)) content metrics := by
  refine ⟨⟨resultMessage taskID content, rfl, rfl⟩, ?_⟩
  cases metrics <;> cases id <;> simp [buildTask, List.lookup]

/-- The metrics are read, and go into the task that is published. -/
theorem tracks_publishTask (htracker : cfg.tracker)
    (id prompt content contextID timestamp : String) :
    Follows Tracks (fun u _ => u.tracked = some id) (.updated id prompt content)
      (taskMetadata cfg id >>= fun metadata => publishTask cfg taskID content
        (buildTask taskID contextID content timestamp metadata)) := by
  have published : ∀ metrics : Option Metrics, ∀ task, Carries task content metrics →
      Follows Tracks (fun u _ => u.tracked = some id) (.read id prompt content metrics)
        (publishTask cfg taskID content task) := by
    intro metrics task carries
    have result : Follows Tracks (fun u _ => u = .read id prompt content metrics)
        (.read id prompt content metrics) (publishResult cfg taskID task) := by
      unfold publishResult
      split_ifs
      · exact Follows.bind fun p => ⟨_, .publish id prompt _ p carries, rfl⟩
      · exact rfl
    refine result.andThen fun err => ?_
    cases err with
    | some err => exact rfl
    | none => exact (passes (neutral_publishStatus _ _)).andThen fun _ => rfl
  unfold taskMetadata usageMetadata
  rw [if_pos htracker]
  refine Follows.bind (Follows.bind (Follows.bind fun metrics => ?_))
  refine ⟨_, .read id prompt content metrics, ?_⟩
  refine Follows.bind fun traceID => ⟨_, .pass rfl, ?_⟩
  exact published metrics _ (carries_buildTask _ _ _ _ _)

theorem tracks_runSession (htracker : cfg.tracker) (req : SendMessageRequest) (id : String) :
    Follows Tracks (fun u _ => u.tracked = some id) (.created id)
      (runSession cfg req taskID id) := by
  have failed : ∀ u err, u.tracked = some id →
      Follows Tracks (fun u _ => u.tracked = some id) u (fail cfg taskID err) := by
    rintro u err hu
    refine (passes (neutral_fail err)).mono ?_
    rintro _ _ rfl
    exact hu
  unfold runSession tracked
  simp only [htracker, if_true]
  refine Follows.bind fun _ => ⟨_, .start id taskID, ?_⟩
  split_ifs
  · exact failed _ _ rfl
  · refine Follows.bind fun answer => ?_
    cases answer with
    | error err => exact ⟨_, .fail id _ err, failed _ _ rfl⟩
    | ok content =>
      refine ⟨_, .answer id _ content, Follows.bind fun _ => ⟨_, .update id _ content, ?_⟩⟩
      exact Follows.bind fun _ => ⟨_, .pass rfl, tracks_publishTask htracker _ _ _ _ _⟩

theorem tracks_handleData (htracker : cfg.tracker) (data : Except GoError SendMessageRequest) :
    Follows Tracks (fun _ _ => True) .idle (handleData cfg data) := by
  have failed : ∀ {taskID : String} (err : GoError),
      Follows Tracks (fun _ _ => True) .idle (fail cfg taskID err) := fun err =>
    (passes (neutral_fail err)).mono fun _ _ _ => trivial
  cases data with
  | error err => trivial
  | ok req =>
    refine (passes (neutral_publishStatus _ _)).andThen fun _ =>
      Follows.bind fun initErr => ⟨_, .pass rfl, ?_⟩
    cases initErr with
    | some err => exact failed _
    | none =>
      refine Follows.bind fun session => ?_
      cases session with
      | error err => exact ⟨_, .pass rfl, failed _⟩
      | ok id =>
        refine ⟨_, .create id, Follows.bind fun _ => ⟨_, .pass rfl, ?_⟩⟩
        refine Follows.bind ((tracks_runSession htracker req id).mono fun u result tracked => ?_)
        refine Follows.bind fun _ => ⟨_, .pass rfl, ?_⟩
        unfold Proxy.tracked
        rw [if_pos htracker]
        exact Follows.bind fun _ => ⟨_, .finish tracked, trivial⟩

theorem tracks_handle (htracker : cfg.tracker) (data : Except GoError SendMessageRequest) :
    Follows Tracks (fun _ _ => True) .idle (handle cfg data) := by
  refine Follows.bind fun accepted => ⟨_, .pass rfl, ?_⟩
  cases accepted with
  | false => trivial
  | true =>
    refine Follows.bind ((tracks_handleData htracker data).mono fun u result _ => ?_)
    exact Follows.bind fun _ => ⟨_, .pass rfl, trivial⟩

end Handle

/-! ## The tracker and the calls -/

/-- The counts that the tracker has of a session. -/
def counts (m : SessionMetrics) : ℤ × ℤ × ℤ := (m.currentTokens, m.turnCount, m.tokenLimit)

/-- The tracker has the sessions of the calls, each with the counts of its own call. -/
def Meters (t : Tracker) (usage : ℕ → Usage) : Prop :=
  HeldBy (fun id => (t.getMetrics id).map counts) fun c => (usage c).entry

def noteTracked (held : Option String) : Event Ans → Option String
  | ⟨.startSession sessionID _ _, _⟩ => some sessionID
  | ⟨.endSession _, _⟩ => none
  | _ => held

/-- The session that a call has started to track and not ended. -/
def trackedBy (past : Trace) : Option String := past.foldl noteTracked none

/-- A task that was published with the usage of its own call. -/
def Own (past : Trace) (task : Task) : Prop :=
  ∃ id prompt content compactions, createdBy past = some id ∧
    ⟨.prompt id prompt, .ok content⟩ ∈ past ∧
    Carries task content (some ⟨approxTokens prompt content, 0, 1, compactions, 0⟩)

/-- The handler and the tracker, in terms of the usage of the calls. -/
structure Metered (s : Station) (phase : ℕ → Phase) (usage : ℕ → Usage) : Prop where
  orderly : Orderly s.service phase
  follows : ∀ c f, s.service.flights c = some f →
    Follows Tracks (fun _ _ => True) (usage c) f.rest
  agree : ∀ c, (usage c).tracked = (phase c).tracked
  noted : ∀ c f, s.service.flights c = some f → trackedBy f.past = (usage c).tracked
  meters : Meters s.tracker usage
  absent : ∀ c, s.service.flights c = none → usage c = .idle
  exchanged : ∀ c f, s.service.flights c = some f → ∀ id prompt content,
    (usage c).exchange = some (id, prompt, content) → ⟨.prompt id prompt, .ok content⟩ ∈ f.past
  own : ∀ c f, s.service.flights c = some f → ∀ subject task p,
    ⟨.publish subject (.task task), p⟩ ∈ f.past → Own f.past task
  reading : ∀ c id prompt content metrics, usage c = .read id prompt content metrics →
    ∃ compactions, metrics = some ⟨approxTokens prompt content, 0, 1, compactions, 0⟩

section Steps

variable {s t : Station} {phase : ℕ → Phase} {usage : ℕ → Usage} {c : ℕ} {e : Event Ans}
  {u u' : Usage} {φ φ' : Phase} {tracker tracker' : Tracker}

theorem effect_neutral (quiet : neutral e) (h : effect tracker e = some tracker') :
    tracker' = tracker := by
  obtain ⟨op, ans⟩ := e
  cases op with
  | startSession | updateTokens | getMetrics | endSession => cases quiet
  | _ => exact (Option.some.inj h).symm

/-- A call that does nothing with the tracker does not change what is tracked. -/
theorem tracked_of_neutral (quiet : neutral e) (hmove : Move φ e φ') : φ'.tracked = φ.tracked := by
  cases hmove with
  | track | untrack => cases quiet
  | deregister id tracked => cases tracked <;> rfl
  | leave clean => rcases clean with rfl | ⟨id, rfl⟩ <;> rfl
  | enter | refuse | pass | create | register => rfl

/-- Both views of a call agree on what is tracked. -/
theorem tracked_agree (agree : u.tracked = φ.tracked) (htracks : Tracks u e u')
    (hmove : Move φ e φ') : u'.tracked = φ'.tracked := by
  cases htracks with
  | pass quiet => rw [agree, tracked_of_neutral quiet hmove]
  | create id =>
    cases hmove with
    | pass busy quiet => cases quiet
    | create => rfl
  | start id taskID =>
    cases hmove with
    | pass busy quiet => cases quiet
    | track => rfl
  | finish tracked =>
    cases hmove with
    | pass busy quiet => cases quiet
    | untrack => rfl
  | fail | answer | update | read | publish =>
    cases hmove with
    | pass => exact agree

/-- What a call has noted of its session is what the tracker has for it. -/
theorem noteTracked_of_tracks (h : Tracks u e u') : noteTracked u.tracked e = u'.tracked := by
  cases h with
  | pass quiet =>
    obtain ⟨op, ans⟩ := e
    cases op with
    | startSession | endSession => cases quiet
    | _ => rfl
  | create | start | fail | answer | update | read | publish | finish => rfl

theorem trackedBy_snoc (past : Trace) (e : Event Ans) :
    trackedBy (past ++ [e]) = noteTracked (trackedBy past) e := by
  simp [trackedBy]

theorem entry_update (usage : ℕ → Usage) (c : ℕ) (u : Usage) :
    (fun d => (Function.update usage c u d).entry) =
      Function.update (fun d => (usage d).entry) c u.entry :=
  funext fun d => Function.apply_update (fun _ => Usage.entry) usage c u d

theorem Meters.unchanged (h : Meters tracker usage) (same : u.entry = (usage c).entry) :
    Meters tracker (Function.update usage c u) := by
  unfold Meters
  rw [entry_update, same, Function.update_eq_self c fun d => (usage d).entry]
  exact h

/-- The call writes the entry of its own session. -/
theorem Meters.write (id : String) (h : Meters tracker usage)
    (own : ∀ x ∈ (usage c).entry, x.1 = id) (alone : ∀ d, ∀ x ∈ (usage d).entry, x.1 = id → d = c)
    (value : Option (ℤ × ℤ × ℤ)) (entry : u.entry = value.map (id, ·))
    (written : ∀ k, (tracker'.getMetrics k).map counts =
      if k = id then value else (tracker.getMetrics k).map counts) :
    Meters tracker' (Function.update usage c u) := by
  have load : (fun k => (tracker'.getMetrics k).map counts) =
      Function.update (fun k => (tracker.getMetrics k).map counts) id value := by
    funext k
    rw [written, Function.update_apply]
  unfold Meters
  rw [entry_update, entry, load]
  exact HeldBy.write h own alone value

theorem Meters.call (h : Meters tracker usage) (htracks : Tracks (usage c) e u)
    (alone : ∀ id taskID, (usage c).tracked = some id ∨ e = ⟨.startSession id taskID 0, ()⟩ →
      ∀ d, ∀ x ∈ (usage d).entry, x.1 = id → d = c)
    (heffect : effect tracker e = some tracker') : Meters tracker' (Function.update usage c u) := by
  generalize hc : usage c = u₀ at htracks
  cases htracks with
  | pass quiet =>
    obtain rfl := effect_neutral quiet heffect
    exact h.unchanged (by rw [hc])
  | create | fail | answer | publish =>
    cases heffect
    exact h.unchanged (by simp [hc, Usage.entry])
  | read =>
    simp only [effect] at heffect
    split_ifs at heffect
    cases heffect
    exact h.unchanged (by simp [hc, Usage.entry])
  | start id taskID =>
    cases heffect
    refine h.write id ?_ (alone id taskID (.inr rfl)) (some (0, 0, 0)) rfl fun k => ?_
    · simp [hc, Usage.entry]
    · rw [Tracker.getMetrics_startSession]
      split_ifs <;> rfl
  | update id prompt content =>
    cases heffect
    have mine : (usage c).entry = some (id, 0, 0, 0) := by rw [hc]; rfl
    obtain ⟨m, hm, before⟩ := Option.map_eq_some_iff.mp ((h id _).mpr ⟨c, mine⟩)
    refine h.write id ?_ (alone id "" (.inl (by rw [hc]; rfl)))
      (some (approxTokens prompt content, 1, 0)) rfl fun k => ?_
    · simp [mine]
    · rw [Tracker.updateTokens, Tracker.getMetrics_modify]
      split_ifs
      · simp only [counts, Prod.mk.injEq] at before
        simp [hm, counts, before, increment]
      · rfl
  | @finish _ id tracked =>
    cases heffect
    refine h.write id ?_ (alone id "" (.inl (by rw [hc]; exact tracked))) none rfl fun k => ?_
    · intro x hx
      rw [hc] at hx
      rw [Usage.tracked, hx] at tracked
      exact Option.some.inj tracked
    · rw [Tracker.getMetrics_endSession]
      split_ifs <;> rfl

theorem Meters.recordCompaction (h : Meters tracker usage) (id : String) :
    Meters (tracker.recordCompaction id) usage := by
  have load : (fun k => ((tracker.recordCompaction id).getMetrics k).map counts) =
      fun k => (tracker.getMetrics k).map counts := by
    funext k
    rw [Tracker.recordCompaction, Tracker.getMetrics_modify]
    split_ifs with same
    · rw [same, Option.map_map]
      rfl
    · rfl
  unfold Meters
  rw [load]
  exact h

theorem Tracks.exchange {id prompt content : String} (h : Tracks u e u')
    (after : u'.exchange = some (id, prompt, content)) :
    u.exchange = some (id, prompt, content) ∨ e = ⟨.prompt id prompt, .ok content⟩ := by
  cases h with
  | pass | update | read | publish => exact .inl after
  | answer =>
    cases after
    exact .inr rfl
  | create | start | fail | finish => cases after

theorem Own.snoc {past : Trace} {task : Task} (h : Own past task) (e : Event Ans) :
    Own (past ++ [e]) task := by
  obtain ⟨id, prompt, content, compactions, created, exchanged, carries⟩ := h
  refine ⟨id, prompt, content, compactions, ?_, List.mem_append_left _ exchanged, carries⟩
  rw [createdBy_snoc, created]
  rfl

theorem Metered.created {id : String} {f : Flight} (h : Metered s phase usage)
    (hf : s.service.flights c = some f) (tracked : (usage c).tracked = some id) :
    createdBy f.past = some id := by
  rw [h.agree c] at tracked
  exact (h.orderly.records c f hf).created id (Phase.session_of_tracked tracked)

/-- What is read for a session is what its call has written. -/
theorem Meters.read {id prompt content : String} {metrics : Option Metrics}
    (h : Meters tracker usage) (hc : usage c = .updated id prompt content)
    (heffect : effect tracker ⟨.getMetrics id, metrics⟩ = some tracker') :
    ∃ compactions, metrics = some ⟨approxTokens prompt content, 0, 1, compactions, 0⟩ := by
  have mine : (usage c).entry = some (id, approxTokens prompt content, 1, 0) := by rw [hc]; rfl
  obtain ⟨m, hm, before⟩ := Option.map_eq_some_iff.mp ((h id _).mpr ⟨c, mine⟩)
  simp only [counts, Prod.mk.injEq] at before
  obtain ⟨tokens, turns, limit⟩ := before
  simp only [effect] at heffect
  split_ifs at heffect with answered
  refine ⟨m.compactionCount, ?_⟩
  rw [answered, hm, Option.map_some, view, tokens, turns, limit, SessionMetrics.usagePercent,
    if_pos limit.le]

/-- No other call tracks a session that the call has created. -/
theorem Metered.alone {id : String} (h : Metered s phase usage)
    (session : (phase c).session = some id) :
    ∀ d, ∀ x ∈ (usage d).entry, x.1 = id → d = c := by
  rintro d x hx rfl
  have tracked : (usage d).tracked = some x.1 := by rw [Usage.tracked, hx]; rfl
  rw [h.agree d] at tracked
  exact h.orderly.distinct d c _ (Phase.session_of_tracked tracked) session

/-- A task is published with the metrics that were read for its own session. -/
theorem Metered.own_snoc {f : Flight} {subject : String} {task : Task} {p : Published}
    (h : Metered s phase usage) (hf : s.service.flights c = some f) (htracks : Tracks (usage c) e u)
    (published : ⟨.publish subject (.task task), p⟩ ∈ f.past ++ [e]) :
    Own (f.past ++ [e]) task := by
  rcases List.mem_append.mp published with earlier | now
  · exact (h.own c f hf subject task p earlier).snoc e
  · obtain rfl := List.mem_singleton.mp now
    generalize hc : usage c = u₀ at htracks
    cases htracks with
    | pass quiet => cases quiet
    | publish id prompt subject p carries =>
      obtain ⟨compactions, rfl⟩ := h.reading c _ _ _ _ hc
      have own : Own f.past task :=
        ⟨id, prompt, _, compactions, h.created hf (by rw [hc]; rfl),
          h.exchanged c f hf _ _ _ (by rw [hc]; rfl), carries⟩
      exact own.snoc _

theorem Metered.reading_of_tracks {id prompt content : String} {metrics : Option Metrics}
    (h : Metered s phase usage) (hmeter : effect s.tracker e = some tracker)
    (htracks : Tracks (usage c) e (.read id prompt content metrics)) :
    ∃ compactions, metrics = some ⟨approxTokens prompt content, 0, 1, compactions, 0⟩ := by
  generalize hc : usage c = u₀ at htracks
  cases htracks with
  | pass | publish => exact h.reading c id prompt content metrics hc
  | read => exact h.meters.read hc hmeter

theorem Metered.call {f : Flight} {rest : Proc (Except GoError Unit)} {service : Service}
    (h : Metered s phase usage) (hf : s.service.flights c = some f)
    (hrest : f.rest.advance e = some rest) (heffect : s.service.effect e = some service)
    (hmeter : effect s.tracker e = some tracker) (hok : Distinct s.service (.call c e)) :
    ∃ φ u, Metered ⟨{ service with
      flights := Function.update service.flights c (some ⟨f.past ++ [e], rest⟩) }, tracker⟩
        (Function.update phase c φ) (Function.update usage c u) := by
  obtain ⟨φ, hmove, orderly⟩ := h.orderly.call hf hrest heffect hok
  obtain ⟨u, htracks, follows⟩ := (h.follows c f hf).advance hrest
  obtain ⟨hflights, -⟩ := effect_frame heffect
  have alone : ∀ id taskID, (usage c).tracked = some id ∨ e = ⟨.startSession id taskID 0, ()⟩ →
      ∀ d, ∀ x ∈ (usage d).entry, x.1 = id → d = c := by
    rintro id taskID (tracked | rfl)
    · rw [h.agree c] at tracked
      exact h.alone (Phase.session_of_tracked tracked)
    · generalize hc : phase c = φ₀ at hmove
      cases hmove with
      | pass busy quiet => cases quiet
      | track => exact h.alone (by rw [hc]; rfl)
  refine ⟨φ, u, orderly, ?_, ?_, ?_, h.meters.call htracks alone hmeter, ?_, ?_, ?_, ?_⟩ <;>
    simp only [hflights, Function.update_apply]
  · intro d g hd
    split_ifs at hd ⊢ with hdc
    · cases hd
      exact follows
    · exact h.follows d g hd
  · intro d
    split_ifs with hdc
    · exact tracked_agree (h.agree c) htracks hmove
    · exact h.agree d
  · intro d g hd
    split_ifs at hd ⊢ with hdc
    · cases hd
      rw [trackedBy_snoc, h.noted c f hf]
      exact noteTracked_of_tracks htracks
    · exact h.noted d g hd
  · intro d hd
    split_ifs at hd ⊢ with hdc
    exact h.absent d hd
  · intro d g hd id prompt content after
    split_ifs at hd after with hdc
    · cases hd
      rw [List.mem_append, List.mem_singleton]
      rcases htracks.exchange after with before | rfl
      · exact .inl (h.exchanged c f hf id prompt content before)
      · exact .inr rfl
    · exact h.exchanged d g hd id prompt content after
  · intro d g hd subject task p published
    split_ifs at hd with hdc
    · cases hd
      exact h.own_snoc hf htracks published
    · exact h.own d g hd subject task p published
  · intro d id prompt content metrics hd
    split_ifs at hd with hdc
    · subst hd
      exact h.reading_of_tracks hmeter htracks
    · exact h.reading d id prompt content metrics hd

theorem Metered.handle {cfg : Config} (htracker : cfg.tracker) (h : Metered s phase usage)
    (data : Except GoError SendMessageRequest) : Metered { s with
      service := { s.service with
        flights := Function.update s.service.flights s.service.next
          (some ⟨[], Proxy.handle cfg data⟩)
        next := s.service.next + 1 } } phase usage := by
  have out : usage s.service.next = .idle := h.absent _ (h.orderly.fresh _ le_rfl)
  refine ⟨h.orderly.handle data, ?_, h.agree, ?_, h.meters, ?_, ?_, ?_, h.reading⟩ <;>
    simp only [Function.update_apply]
  · intro c f hc
    split_ifs at hc with hnext
    · cases hc
      rw [hnext, out]
      exact tracks_handle htracker data
    · exact h.follows c f hc
  · intro c f hc
    split_ifs at hc with hnext
    · cases hc
      rw [hnext, out]
      rfl
    · exact h.noted c f hc
  · intro c hc
    split_ifs at hc
    exact h.absent c hc
  · intro c f hc
    split_ifs at hc with hnext
    · rw [hnext, out]
      simp [Usage.exchange]
    · exact h.exchanged c f hc
  · intro c f hc
    split_ifs at hc with hnext
    · cases hc
      simp
    · exact h.own c f hc

theorem Metered.step {cfg : Config} {a : Act} (htracker : cfg.tracker) (h : Metered s phase usage)
    (hok : Apart s a) (hs : step cfg s a = some t) : ∃ phase' usage', Metered t phase' usage' := by
  cases a with
  | recordCompaction id =>
    cases hs
    exact ⟨phase, usage, { h with meters := h.meters.recordCompaction id }⟩
  | service a =>
    simp only [Metering.step, Option.bind_eq_some_iff, Option.map_eq_some_iff] at hs
    obtain ⟨tracker, hmeter, service, hservice, rfl⟩ := hs
    cases serviceStep_move hservice with
    | handle data =>
      cases hmeter
      exact ⟨phase, usage, h.handle htracker data⟩
    | call hf hrest heffect =>
      obtain ⟨φ, u, metered⟩ := h.call hf hrest heffect hmeter hok
      exact ⟨_, _, metered⟩
    | shutdown | drain | finish | expire | ctxDone | workCancel | snapshot | cancel | await
    | drainAgain | exitTimer =>
      cases hmeter
      have orderly := h.orderly
      exact ⟨phase, usage, ⟨orderly.follows, orderly.records, orderly.absent, orderly.fresh,
        orderly.distinct, orderly.sessions, orderly.tracked, orderly.counted⟩, h.follows, h.agree,
        h.noted, h.meters, h.absent, h.exchanged, h.own, h.reading⟩

end Steps

section Runs

variable {cfg : Config} {config : ContextMgmt.Config} {tracker : Tracker} {acts : List Act}
  {s : Station}

theorem Metered.new (hnew : newTracker config = .ok tracker) :
    Metered (.new tracker) (fun _ => .outside) fun _ => .idle where
  orderly := .new
  follows := by simp [Station.new, Service.new]
  agree _ := rfl
  noted := by simp [Station.new, Service.new]
  meters := by
    obtain ⟨-, empty⟩ := newTracker_eq hnew
    intro id x
    simp [Station.new, Tracker.getMetrics, Table.load, Usage.entry, empty]
  absent _ _ := rfl
  exchanged := by simp [Station.new, Service.new]
  own := by simp [Station.new, Service.new]
  reading := by simp

theorem Metered.run (htracker : cfg.tracker) (hnew : newTracker config = .ok tracker)
    (hok : Meets (Metering.step cfg) Apart (.new tracker) acts)
    (h : Foundation.run (Metering.step cfg) (.new tracker) acts = some s) :
    ∃ phase usage, Metered s phase usage := by
  refine hok.invariant (fun s => ∃ phase usage, Metered s phase usage) ?_ h ⟨_, _, .new hnew⟩
  rintro s a t ⟨phase, usage, metered⟩ hok hs
  exact metered.step htracker hok hs

theorem config_modify (t : Tracker) (id : String) (f : SessionMetrics → SessionMetrics) :
    (t.modify id f).config = t.config := by
  unfold Tracker.modify
  split <;> rfl

theorem config_effect {t t' : Tracker} {e : Event Ans} (h : effect t e = some t') :
    t'.config = t.config := by
  obtain ⟨op, ans⟩ := e
  cases op with
  | updateTokens id tokens =>
    cases h
    exact config_modify _ _ _
  | getMetrics id =>
    simp only [effect] at h
    split_ifs at h
    cases h
    rfl
  | _ =>
    cases h
    rfl

/-- No step changes the configuration. -/
theorem config_of_run (h : run (step cfg) (.new tracker) acts = some s) :
    s.tracker.config = tracker.config := by
  refine run_invariant (fun s => s.tracker.config = tracker.config) ?_ h rfl
  intro s a t same hs
  cases a with
  | recordCompaction id =>
    cases hs
    exact (config_modify _ _ _).trans same
  | service a =>
    simp only [step, Option.bind_eq_some_iff, Option.map_eq_some_iff] at hs
    obtain ⟨tracker, hmeter, service, -, rfl⟩ := hs
    cases a with
    | call c e => exact (config_effect hmeter).trans same
    | _ =>
      cases hmeter
      exact same

end Runs

section Reachable

variable {s : Station} {phase : ℕ → Phase} {usage : ℕ → Usage} {id : String} {m : SessionMetrics}

/-- A call that tracks a session is in progress, and the session is its own. -/
theorem Metered.inProgress {c : ℕ} {f : Flight} (h : Metered s phase usage)
    (hf : s.service.flights c = some f) (tracked : (usage c).tracked = some id) :
    f.inProgress ∧ createdBy f.past = some id := by
  have created := h.created hf tracked
  have session : (phase c).session = some id :=
    Phase.session_of_tracked ((h.agree c).symm.trans tracked)
  refine ⟨⟨?_, result_of_session (h.orderly.follows c f hf) session⟩, created⟩
  intro empty
  simp [empty, createdBy] at created

/-- A session that the tracker has is that of a call in progress. -/
theorem Metered.tracked_of_metrics (h : Metered s phase usage)
    (hm : s.tracker.getMetrics id = some m) :
    ∃ c f, s.service.flights c = some f ∧ f.inProgress ∧ createdBy f.past = some id ∧
      (usage c).entry = some (id, counts m) := by
  have held : (s.tracker.getMetrics id).map counts = some (counts m) := by rw [hm]; rfl
  obtain ⟨c, hc : (usage c).entry = some (id, counts m)⟩ := (h.meters id _).mp held
  have tracked : (usage c).tracked = some id := by rw [Usage.tracked, hc]; rfl
  cases hf : s.service.flights c with
  | none =>
    rw [h.absent c hf] at hc
    cases hc
  | some f =>
    obtain ⟨progress, created⟩ := h.inProgress hf tracked
    exact ⟨c, f, hf, progress, created, hc⟩

/-- The tracker has the session of a call that tracks it. -/
theorem Metered.metrics_of_tracked {c : ℕ} (h : Metered s phase usage)
    (tracked : (usage c).tracked = some id) : ∃ m, s.tracker.getMetrics id = some m := by
  obtain ⟨x, hx, rfl⟩ := Option.map_eq_some_iff.mp tracked
  obtain ⟨m, hm, -⟩ := Option.map_eq_some_iff.mp ((h.meters x.1 x.2).mpr ⟨c, hx⟩)
  exact ⟨m, hm⟩

theorem Usage.entry_limit {u : Usage} {tokens turns limit : ℤ}
    (h : u.entry = some (id, tokens, turns, limit)) : limit = 0 := by
  cases u <;> cases h <;> rfl

/-- Tokens are counted once the prompt was answered. -/
theorem Usage.exchange_of_entry {u : Usage} {tokens turns limit : ℤ}
    (h : u.entry = some (id, tokens, turns, limit)) (positive : 0 < tokens) :
    ∃ prompt content, u.exchange = some (id, prompt, content) ∧
      tokens = approxTokens prompt content := by
  cases u with
  | updated | read =>
    cases h
    exact ⟨_, _, rfl, rfl⟩
  | started | failed | answered =>
    cases h
    exact absurd positive (lt_irrefl 0)
  | idle | created | ended => cases h

/-- From the answer on, no prompt is sent. -/
theorem no_prompt_after {u : Usage} {α : Type} {p : Proc α} {post : Usage → α → Prop}
    (h : Follows Tracks post u p) (answered : u.exchange.isSome ∨ u = .ended) :
    Calls (fun op => ∀ id prompt, op ≠ .prompt id prompt) p := by
  refine h.calls (fun u => u.exchange.isSome ∨ u = .ended) ?_ answered
  intro u e u' before htracks
  cases htracks with
  | pass quiet =>
    refine ⟨?_, before⟩
    intro id prompt hop
    obtain ⟨op, ans⟩ := e
    subst hop
    cases quiet
  | create | start | fail | answer => rcases before with before | before <;> cases before
  | update | read | publish => exact ⟨by simp, .inl rfl⟩
  | finish => exact ⟨by simp, .inr rfl⟩

end Reachable

/-- Every result is published with the usage of its own prompt and answer, whatever other calls do
with the tracker at the same time. -/
theorem usage_is_own {cfg : Config} {config : ContextMgmt.Config} {tracker : Tracker}
    {acts : List Act} {s : Station} (htracker : cfg.tracker)
    (hnew : newTracker config = .ok tracker) (hok : Meets (step cfg) Apart (.new tracker) acts)
    (h : run (step cfg) (.new tracker) acts = some s) (c : ℕ) (f : Flight)
    (hf : s.service.flights c = some f) (subject : String) (task : Task) (p : Published)
    (published : (subject, .task task, p) ∈ publications f.past) :
    ∃ id prompt content compactions, createdBy f.past = some id ∧
      ⟨.prompt id prompt, .ok content⟩ ∈ f.past ∧
      (∃ m, task.status.message = some m ∧ m.parts = [{ text := content }]) ∧
      task.metadata.lookup "contextUsage" =
        some (.contextUsage (approxTokens prompt content) 1 compactions none) := by
  obtain ⟨phase, usage, metered⟩ := Metered.run htracker hnew hok h
  have event : (⟨.publish subject (.task task), p⟩ : Event Ans) ∈ f.past := by
    obtain ⟨e, he, hpublished⟩ := List.mem_filterMap.mp published
    obtain ⟨op, ans⟩ := e
    cases op with
    | publish =>
      cases hpublished
      exact he
    | _ => cases hpublished
  obtain ⟨id, prompt, content, compactions, created, exchanged, carries⟩ :=
    metered.own c f hf subject task p event
  exact ⟨id, prompt, content, compactions, created, exchanged, carries.answer, carries.usage⟩

/-- A handler with a publisher and a tracker that asks for compaction early. -/
def reporting : Config where
  tracker := true

def earlyTracker : Tracker where
  config := { defaultConfig with tokenThreshold := 1 }
  ordered := by decide
  sessions := []
  keyed := List.nodup_nil

theorem newTracker_early :
    newTracker { defaultConfig with tokenThreshold := 1 } = .ok earlyTracker := rfl

/-- A call up to its prompt, -/
def opening (id : String) : Trace := [⟨.enter, true⟩, ⟨.now, "1"⟩,
  ⟨.publish "agent.status.t" (.status { state := .working, timestamp := "1" }), .acked⟩,
  ⟨.initOnce, none⟩, ⟨.newSession, .ok id⟩, ⟨.registerSession id, ()⟩, ⟨.startSession id "t" 0, ()⟩]

/-- and from there to the publication of the result. -/
def reply (id content : String) (metrics : Metrics) : Trace := [⟨.prompt id "hi", .ok content⟩,
  ⟨.updateTokens id (approxTokens "hi" content), ()⟩, ⟨.now, "2"⟩, ⟨.getMetrics id, some metrics⟩,
  ⟨.traceID, none⟩, ⟨.publish "agent.results.t" (.task (buildTask "t" "" content "2"
    [("contextUsage", contextUsage metrics)])), .acked⟩]

def callsOf (c : ℕ) (es : Trace) : List Act := es.map fun e => .service (.call c e)

/-- Two calls at the same time, with a compaction in between. -/
def sideBySide : List Act :=
  ([.service (.handle (.ok greeting)), .service (.handle (.ok greeting))] : List Act) ++
  callsOf 0 (opening "s0") ++ callsOf 1 (opening "s1") ++
  ([.recordCompaction "s1"] : List Act) ++
  callsOf 1 (reply "s1" "hello, hello" ⟨3, 0, 1, 1, 0⟩) ++
  callsOf 0 (reply "s0" "hello" ⟨1, 0, 1, 0, 0⟩)

theorem apart_sideBySide : Meets (step reporting) Apart (.new earlyTracker) sideBySide := by
  decide +kernel

theorem usage_is_own_sideBySide : ∃ s f task, run (step reporting) (.new earlyTracker) sideBySide =
      some s ∧ s.service.flights 1 = some f ∧
    ("agent.results.t", .task task, .acked) ∈ publications f.past ∧
    ∃ prompt content compactions, task.metadata.lookup "contextUsage" =
      some (.contextUsage (approxTokens prompt content) 1 compactions none) := by
  have observed : (run (step reporting) (.new earlyTracker) sideBySide).bind (fun s =>
      (s.service.flights 1).map fun f => (publications f.past).getLast?) =
      some (some ("agent.results.t", .task (buildTask "t" "" "hello, hello" "2"
        [("contextUsage", .contextUsage 3 1 1 none)]), .acked)) := by decide +kernel
  obtain ⟨s, hs, later⟩ := Option.bind_eq_some_iff.mp observed
  obtain ⟨f, hf, last⟩ := Option.map_eq_some_iff.mp later
  have published := List.mem_of_getLast? last
  obtain ⟨-, prompt, content, compactions, -, -, -, usage⟩ :=
    usage_is_own rfl newTracker_early apart_sideBySide hs 1 f hf _ _ _ published
  exact ⟨s, f, _, hs, hf, published, prompt, content, compactions, usage⟩

/-- The strategy for a session never depends on its usage: it is that of an unused session while a
call tracks the session, and a fresh start otherwise. A call that tracks a session is in progress.
-/
theorem strategy_ignores_usage {cfg : Config} {config : ContextMgmt.Config} {tracker : Tracker}
    {acts : List Act} {s : Station} (htracker : cfg.tracker)
    (hnew : newTracker config = .ok tracker) (hok : Meets (step cfg) Apart (.new tracker) acts)
    (h : run (step cfg) (.new tracker) acts = some s) (id : String) :
    (∀ c f, s.service.flights c = some f → trackedBy f.past = some id →
      f.inProgress ∧ createdBy f.past = some id ∧
        s.tracker.selectResurrectionStrategyForSession id =
          (tracker.selectResurrectionStrategy 0, none)) ∧
    ((∀ c f, s.service.flights c = some f → trackedBy f.past ≠ some id) →
      s.tracker.selectResurrectionStrategyForSession id =
        (.fresh, some (.new ("context: no metrics for session " ++ id ++
          ", defaulting to fresh")))) := by
  obtain ⟨phase, usage, metered⟩ := Metered.run htracker hnew hok h
  constructor
  · intro c f hf tracked
    rw [metered.noted c f hf] at tracked
    obtain ⟨progress, created⟩ := metered.inProgress hf tracked
    obtain ⟨m, hm⟩ := metered.metrics_of_tracked tracked
    obtain ⟨_, _, -, -, -, entry⟩ := metered.tracked_of_metrics hm
    have limit : m.tokenLimit = 0 := Usage.entry_limit entry
    have unused : m.usagePercent = 0 := if_pos limit.le
    refine ⟨progress, created, ?_⟩
    simp [Tracker.selectResurrectionStrategyForSession, hm, unused,
      Tracker.selectResurrectionStrategy, config_of_run h]
  · intro untracked
    have unknown : s.tracker.getMetrics id = none := by
      cases hm : s.tracker.getMetrics id with
      | none => rfl
      | some m =>
        obtain ⟨c, f, hf, -, -, entry⟩ := metered.tracked_of_metrics hm
        refine absurd ?_ (untracked c f hf)
        rw [metered.noted c f hf, Usage.tracked, entry]
        rfl
    simp [Tracker.selectResurrectionStrategyForSession, unknown]

theorem strategy_ignores_usage_sideBySide : ∃ s,
    run (step reporting) (.new earlyTracker) sideBySide = some s ∧
      s.tracker.selectResurrectionStrategyForSession "s1" = (.full, none) := by
  have observed : (run (step reporting) (.new earlyTracker) sideBySide).bind (fun s =>
      (s.service.flights 1).map fun f => trackedBy f.past) = some (some "s1") := by decide +kernel
  obtain ⟨s, hs, later⟩ := Option.bind_eq_some_iff.mp observed
  obtain ⟨f, hf, tracked⟩ := Option.map_eq_some_iff.mp later
  obtain ⟨tracking, -⟩ :=
    strategy_ignores_usage rfl newTracker_early apart_sideBySide hs "s1"
  exact ⟨s, hs, (tracking 1 f hf tracked).2.2⟩

/-- A session is named for compaction only after its prompt was answered, and then its call sends no
further prompt. -/
theorem compaction_comes_late {cfg : Config} {config : ContextMgmt.Config} {tracker : Tracker}
    {acts : List Act} {s : Station} (htracker : cfg.tracker)
    (hnew : newTracker config = .ok tracker) (hok : Meets (step cfg) Apart (.new tracker) acts)
    (h : run (step cfg) (.new tracker) acts = some s) (positive : 0 < config.tokenThreshold)
    (id : String) (named : id ∈ s.tracker.checkCompaction) :
    ∃ c f prompt content, s.service.flights c = some f ∧ f.inProgress ∧
      ⟨.prompt id prompt, .ok content⟩ ∈ f.past ∧
      config.tokenThreshold ≤ approxTokens prompt content ∧
      Calls (fun op => ∀ id prompt, op ≠ .prompt id prompt) f.rest := by
  obtain ⟨phase, usage, metered⟩ := Metered.run htracker hnew hok h
  obtain ⟨m, hm, reached⟩ := (s.tracker.mem_checkCompaction id).mp named
  rw [config_of_run h, (newTracker_eq hnew).1] at reached
  obtain ⟨c, f, hf, progress, -, entry⟩ := metered.tracked_of_metrics hm
  obtain ⟨prompt, content, exchange, tokens⟩ :=
    Usage.exchange_of_entry entry (positive.trans_le reached)
  refine ⟨c, f, prompt, content, hf, progress, ?_, tokens ▸ reached, ?_⟩
  · exact metered.exchanged c f hf id prompt content exchange
  · exact no_prompt_after (metered.follows c f hf) (.inl (by rw [exchange]; rfl))

theorem compaction_comes_late_sideBySide : ∃ s f, run (step reporting) (.new earlyTracker)
      sideBySide = some s ∧ "s1" ∈ s.tracker.checkCompaction ∧ (∃ c, s.service.flights c = some f) ∧
    Calls (fun op => ∀ id prompt, op ≠ .prompt id prompt) f.rest := by
  have observed : (run (step reporting) (.new earlyTracker) sideBySide).map
      (fun s => decide ("s1" ∈ s.tracker.checkCompaction)) = some true := by decide +kernel
  obtain ⟨s, hs, named⟩ := Option.map_eq_some_iff.mp observed
  have named := of_decide_eq_true named
  obtain ⟨c, f, -, -, hf, -, -, -, silent⟩ := compaction_comes_late rfl newTracker_early
    apart_sideBySide hs (by decide) "s1" named
  exact ⟨s, f, hs, named, ⟨c, hf⟩, silent⟩

end Daedalus.Proxy.Metering
