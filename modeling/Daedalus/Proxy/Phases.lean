import Daedalus.Proxy.Shutdown

/-!
# The phases of a call

A `Handle` call goes through phases: it is let in or refused, creates a session, registers it, works
with it, cleans up in the order deregister, end tracking, `wg.Done`, and leaves. That it does so on
every path is a fact about `Handle` alone, and so is what its past calls say about its phase.
-/
namespace Daedalus.Proxy

open Foundation Prog A2A

inductive Phase where
  | outside
  | refused
  | inside
  | created (sessionID : String)
  | working (sessionID : String) (tracked : Bool)
  | cleaning (sessionID : String) (tracked : Bool)
  | left
  deriving DecidableEq

namespace Phase

/-- The call counts in the wait group. -/
def counted : Phase → Bool
  | .inside | .created _ | .working _ _ | .cleaning _ _ => true
  | _ => false

/-- The session that the call has created and not cleaned up. -/
def session : Phase → Option String
  | .created id | .working id _ | .cleaning id _ => some id
  | _ => none

/-- The session that is registered. -/
def registered : Phase → Option String
  | .working id _ => some id
  | _ => none

/-- The session that the tracker has an entry for. -/
def tracked : Phase → Option String
  | .working id true | .cleaning id true => some id
  | _ => none

/-- The call works on its request, before or after it has a session. -/
def busy : Phase → Bool
  | .inside | .working _ _ => true
  | _ => false

end Phase

/-- The calls that touch neither the wait group nor the sessions, and create none. -/
def inert : Event Ans → Bool
  | ⟨.newSession, .error _⟩ => true
  | ⟨.now, _⟩ | ⟨.publish _ _, _⟩ | ⟨.initOnce, _⟩ | ⟨.updateTokens _ _, _⟩ | ⟨.getMetrics _, _⟩
  | ⟨.prompt _ _, _⟩ | ⟨.traceID, _⟩ => true
  | _ => false

/-- The protocol of `Handle`. -/
inductive Move : Phase → Event Ans → Phase → Prop
  | enter : Move .outside ⟨.enter, true⟩ .inside
  | refuse : Move .outside ⟨.enter, false⟩ .refused
  | pass {φ : Phase} {e : Event Ans} (busy : φ.busy) (quiet : inert e) : Move φ e φ
  | create (id : String) : Move .inside ⟨.newSession, .ok id⟩ (.created id)
  | register (id : String) : Move (.created id) ⟨.registerSession id, ()⟩ (.working id false)
  | track (id taskID : String) (limit : ℤ) :
    Move (.working id false) ⟨.startSession id taskID limit, ()⟩ (.working id true)
  | deregister (id : String) (tracked : Bool) :
    Move (.working id tracked) ⟨.deregisterSession id, ()⟩ (.cleaning id tracked)
  | untrack (id : String) : Move (.cleaning id true) ⟨.endSession id, ()⟩ (.cleaning id false)
  | leave {φ : Phase} (clean : φ = .inside ∨ ∃ id, φ = .cleaning id false) :
    Move φ ⟨.done, ()⟩ .left

/-- A part of `Handle` that stays in its phase. -/
def Stays {α : Type} (φ : Phase) (p : Proc α) : Prop := Follows Move (fun φ' _ => φ' = φ) φ p

section Handle

variable {cfg : Config} {φ : Phase} {taskID : String}

theorem stays_pure {α : Type} (a : α) : Stays φ (pure a : Proc α) := rfl

theorem stays_perform {op : Op} (busy : φ.busy) (quiet : ∀ ans, inert ⟨op, ans⟩) :
    Stays φ (perform op : Proc (Ans op)) :=
  fun ans => ⟨φ, .pass busy (quiet ans), rfl⟩

/-- After a part that stays in its phase the rest starts in the same phase. -/
theorem Stays.bind {α β : Type} {p : Proc α} {f : α → Proc β} {post : Phase → β → Prop}
    (hp : Stays φ p) (hf : ∀ a, Follows Move post φ (f a)) : Follows Move post φ (p >>= f) := by
  refine Follows.bind (hp.mono ?_)
  rintro _ a rfl
  exact hf a

/-- Reporting on a task is no change of phase. -/
theorem stays_of_reports {α : Type} {p : Proc α} (busy : φ.busy)
    (h : Calls (Reports cfg taskID) p) :
    Stays φ p := by
  refine h.follows fun op ans reports => .pass busy ?_
  obtain ⟨-, reporting⟩ := reports
  cases op <;> first | rfl | cases reporting

/-- With a tracker the session is tracked from the start, without one it never is. -/
theorem follows_runSession (req : SendMessageRequest) (id : String) :
    Follows Move (fun φ _ => φ = .working id cfg.tracker) (.working id false)
      (runSession cfg req taskID id) := by
  have start : Follows Move (fun φ _ => φ = .working id cfg.tracker) (.working id false)
      (tracked cfg (startSession id taskID 0)) := by
    unfold tracked
    split_ifs with h
    · rw [h]
      exact fun _ => ⟨_, .track id taskID 0, rfl⟩
    · simp [follows_pure, h]
  refine Follows.bind (start.mono ?_)
  rintro _ _ rfl
  dsimp only
  split_ifs
  · exact stays_of_reports rfl (reports_fail _)
  · refine (stays_perform rfl fun _ => rfl).bind fun answer => ?_
    cases answer with
    | error err => exact stays_of_reports rfl (reports_fail _)
    | ok content =>
      have update : Stays (.working id cfg.tracker) (tracked cfg (updateTokens id
          ((req.message.extractPromptText.utf8ByteSize + content.utf8ByteSize) / 4))) := by
        unfold tracked
        split_ifs
        · exact stays_perform rfl fun _ => rfl
        · exact stays_pure _
      exact update.bind fun _ => (stays_perform rfl fun _ => rfl).bind fun _ =>
        stays_of_reports rfl <|
          (reports_taskMetadata id).bind fun _ => reports_publishTask content rfl

/-- A request is handled from inside to a point where the call may leave. -/
theorem follows_handleData (data : Except GoError SendMessageRequest) :
    Follows Move (fun φ _ => φ = .inside ∨ ∃ id, φ = .cleaning id false) .inside
      (handleData cfg data) := by
  have failed : ∀ {taskID : String} (err : GoError), Follows Move
      (fun φ _ => φ = .inside ∨ ∃ id, φ = .cleaning id false) .inside (fail cfg taskID err) := by
    intro taskID err
    exact (stays_of_reports rfl (reports_fail err)).mono fun _ _ h => .inl h
  cases data with
  | error err => exact .inl rfl
  | ok req =>
    refine (stays_of_reports rfl (reports_publishStatus _ _)).bind fun _ =>
      (stays_perform rfl fun _ => rfl).bind fun initErr => ?_
    cases initErr with
    | some err => exact failed _
    | none =>
      refine Follows.bind fun session => ?_
      cases session with
      | error err => exact ⟨_, .pass rfl rfl, failed _⟩
      | ok id =>
        refine ⟨_, .create id, Follows.bind fun _ => ⟨_, .register id, ?_⟩⟩
        refine Follows.bind ((follows_runSession req id).mono ?_)
        rintro _ result rfl
        refine Follows.bind fun _ => ⟨_, .deregister id _, ?_⟩
        unfold tracked
        split_ifs with h
        · rw [h]
          exact Follows.bind fun _ => ⟨_, .untrack id, .inr ⟨id, rfl⟩⟩
        · rw [Bool.not_eq_true] at h
          rw [h]
          exact .inr ⟨id, rfl⟩

/-- How a call ends: refused, or after it has left. -/
def Ended (φ : Phase) (result : Except GoError Unit) : Prop :=
  (φ = .refused ∧ result = .error rejected) ∨ φ = .left

theorem follows_handle (data : Except GoError SendMessageRequest) :
    Follows Move Ended .outside (handle cfg data) := by
  refine Follows.bind fun accepted => ?_
  cases accepted with
  | false => exact ⟨_, .refuse, .inl ⟨rfl, rfl⟩⟩
  | true =>
    refine ⟨_, .enter, Follows.bind ((follows_handleData data).mono ?_)⟩
    intro φ result clean
    exact Follows.bind fun _ => ⟨_, .leave clean, .inr rfl⟩

end Handle

/-! ## What a call has done -/

def noteRegistered (held : List String) : Event Ans → List String
  | ⟨.registerSession id, _⟩ => id :: held
  | ⟨.deregisterSession id, _⟩ => held.erase id
  | _ => held

/-- The sessions that a call has registered and not deregistered. -/
def registeredBy (past : Trace) : List String := past.foldl noteRegistered []

def sessionCreated : Event Ans → Option String
  | ⟨.newSession, .ok id⟩ => some id
  | _ => none

/-- The session that `session/new` gave to the call. -/
def createdBy (past : Trace) : Option String := past.findSome? sessionCreated

theorem registeredBy_snoc (past : Trace) (e : Event Ans) :
    registeredBy (past ++ [e]) = noteRegistered (registeredBy past) e := by
  simp [registeredBy]

theorem createdBy_snoc (past : Trace) (e : Event Ans) :
    createdBy (past ++ [e]) = (createdBy past).or (sessionCreated e) := by
  simp [createdBy, List.findSome?_append]

theorem noteRegistered_inert {e : Event Ans} (h : inert e) (held : List String) :
    noteRegistered held e = held := by
  obtain ⟨op, ans⟩ := e
  cases op with
  | registerSession | deregisterSession => cases h
  | _ => rfl

theorem sessionCreated_inert {e : Event Ans} (h : inert e) : sessionCreated e = none := by
  obtain ⟨op, ans⟩ := e
  cases op with
  | newSession =>
    cases ans with
    | error err => rfl
    | ok id => cases h
  | _ => rfl

/-- The phase agrees with the calls made so far. -/
structure Phase.Records (φ : Phase) (past : Trace) : Prop where
  outside : φ = .outside ↔ past = []
  refused : φ = .refused → past = [⟨.enter, false⟩]
  registered : registeredBy past = φ.registered.toList
  created : ∀ id, φ.session = some id → createdBy past = some id
  /-- Before a session is created there is none. -/
  uncreated : φ = .outside ∨ φ = .inside → createdBy past = none

theorem Phase.Records.move {φ φ' : Phase} {past : Trace} {e : Event Ans} (h : φ.Records past)
    (hmove : Move φ e φ') : φ'.Records (past ++ [e]) := by
  obtain ⟨outside, refused, registered, created, uncreated⟩ := h
  cases hmove with
  | enter | refuse =>
    obtain rfl := outside.mp rfl
    constructor <;> simp [registeredBy, createdBy, noteRegistered, sessionCreated, Phase.registered,
      Phase.session]
  | pass busy quiet =>
    refine ⟨?_, ?_, ?_, ?_, ?_⟩
    · have : φ ≠ .outside := by
        rintro rfl
        cases busy
      simp [this]
    · rintro rfl
      cases busy
    · rw [registeredBy_snoc, noteRegistered_inert quiet, registered]
    · simpa [createdBy_snoc, sessionCreated_inert quiet] using created
    · simpa [createdBy_snoc, sessionCreated_inert quiet] using uncreated
  | create id =>
    refine ⟨by simp, by simp, ?_, ?_, by simp⟩
    · rw [registeredBy_snoc, registered]
      rfl
    · rintro _ ⟨⟩
      rw [createdBy_snoc, uncreated (.inr rfl)]
      rfl
  | register id | track id | deregister id | untrack id =>
    refine ⟨by simp, by simp, ?_, ?_, by simp⟩
    · rw [registeredBy_snoc, registered]
      simp [noteRegistered, Phase.registered]
    · rintro _ ⟨⟩
      rw [createdBy_snoc, created id rfl]
      rfl
  | leave clean =>
    refine ⟨by simp, by simp, ?_, by simp [Phase.session], by simp⟩
    rw [registeredBy_snoc, registered]
    rcases clean with rfl | ⟨id, rfl⟩ <;> rfl

end Daedalus.Proxy
