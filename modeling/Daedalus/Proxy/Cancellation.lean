import Daedalus.Proxy.Graceful

/-!
# Cancelling sessions at the end of the grace period

When the grace period is over, `Shutdown` cancels the work context and then takes a snapshot of the
active sessions, to send `session/cancel` for each. Cancelling the work context wakes the `Handle`
calls, which deregister their sessions. A session that is gone before the snapshot is taken is not
cancelled; one that is still there is, whatever else happens.
-/
namespace Daedalus.Proxy

open Foundation A2A

/-- Between the end of the grace period and the snapshot. -/
def Stage.unlisted : Stage → Bool
  | .expired | .released => true
  | _ => false

/-- `Shutdown` has gone through the sessions. -/
def Stage.listed : Stage → Bool
  | .waitingAgain | .returned _ => true
  | _ => false

def deregistered : Event Ans → Option String
  | ⟨.deregisterSession id, _⟩ => some id
  | _ => none

/-- Before the snapshot is taken the session is not deregistered. -/
def Undisturbed (id : String) (s : Service) : ServiceAct → Prop
  | .call _ e => s.stage.unlisted → deregistered e ≠ some id
  | _ => True

/-- Once `Shutdown` has gone through the sessions it has sent `session/cancel` for this one. -/
def Notified (id : String) (s : Service) : Prop := s.stage.listed → id ∈ s.cancelled

/-- Where the session is on its way to `session/cancel`. -/
def Due (id : String) (s : Service) : Prop :=
  match s.stage with
  | .idle | .waiting => False
  | .expired | .released => id ∈ s.sessions
  | .cancelling rest => id ∈ s.cancelled ++ rest
  | .waitingAgain | .returned _ => id ∈ s.cancelled

section Runs

variable {cfg : Config} {id : String} {s t : Service} {a : ServiceAct} {e : Event Ans} {c : ℕ}

theorem mem_sessions_of_effect (h : s.effect e = some t) (hid : id ∈ s.sessions)
    (kept : ∀ ans, e ≠ ⟨.deregisterSession id, ans⟩) : id ∈ t.sessions := by
  obtain ⟨op, ans⟩ := e
  cases op with
  | enter =>
    obtain ⟨-, rfl⟩ := effect_enter.mp h
    split_ifs <;> exact hid
  | registerSession id' =>
    cases h
    exact Finset.mem_insert_of_mem hid
  | deregisterSession id' =>
    cases h
    refine Finset.mem_erase.mpr ⟨?_, hid⟩
    rintro rfl
    exact kept ans rfl
  | _ =>
    cases h
    exact hid

theorem Due.step (h : Due id s) (hok : Undisturbed id s a) (hs : serviceStep cfg s a = some t) :
    Due id t := by
  cases serviceStep_move hs with
  | handle => exact h
  | @call c e f rest u hf hrest heffect =>
    obtain ⟨-, -, -, hstage, -, -, hcancelled⟩ := effect_frame heffect
    have kept : s.stage.unlisted → id ∈ s.sessions → id ∈ u.sessions := by
      intro hlisted hid
      refine mem_sessions_of_effect heffect hid ?_
      rintro ans rfl
      exact hok hlisted rfl
    unfold Due at h ⊢
    simp only [hstage, hcancelled]
    cases hs : s.stage <;> simp_all [Stage.unlisted]
  | snapshot stage all =>
    simp only [Due, stage] at h
    simpa [Due, ← List.mem_toFinset, all] using .inr h
  | finish _ stage | ctxDone _ _ stage =>
    rcases stage with stage | stage <;> simp_all [Due]
  | drain | drainAgain => exact h
  | _ => simp_all [Due]

/-! ## Shutdown is not held up -/

/-- The steps that `Shutdown` takes to send `session/cancel`. -/
def ServiceAct.cancels : ServiceAct → Bool
  | .workCancel | .snapshot _ | .cancel | .await => true
  | _ => false

theorem cancelling_completes (cfg : Config) {rest : List String} (h : s.stage = .cancelling rest) :
    ∃ acts t, (∀ a ∈ acts, a.cancels) ∧ run (serviceStep cfg) s acts = some t ∧
      t.stage = .waitingAgain := by
  induction rest generalizing s with
  | nil =>
    refine ⟨[.await], { s with stage := .waitingAgain }, by simp [ServiceAct.cancels], ?_, rfl⟩
    simp [run, serviceStep, h]
  | cons id rest ih =>
    obtain ⟨acts, t, own, hrun, ht⟩ := ih
      (s := { s with cancelled := s.cancelled ++ [id], stage := .cancelling rest }) rfl
    refine ⟨.cancel :: acts, t, ?_, run_cons.mpr ⟨_, ?_, hrun⟩, ht⟩
    · simpa [ServiceAct.cancels] using own
    · simp [serviceStep, h]

/-- From the end of the grace period on, `Shutdown` gets through the sessions by itself. -/
theorem sweep_completes (cfg : Config) (started : s.stage ≠ .idle ∧ s.stage ≠ .waiting) :
    ∃ acts t, (∀ a ∈ acts, a.cancels) ∧ run (serviceStep cfg) s acts = some t ∧ t.stage.listed := by
  have released : ∀ s : Service, s.stage = .released →
      ∃ acts t, (∀ a ∈ acts, a.cancels) ∧ run (serviceStep cfg) s acts = some t ∧
        t.stage.listed := by
    intro s hs
    obtain ⟨acts, t, own, hrun, ht⟩ := cancelling_completes cfg
      (s := { s with stage := .cancelling s.sessions.toList }) rfl
    refine ⟨.snapshot s.sessions.toList :: acts, t, ?_, run_cons.mpr ⟨_, ?_, hrun⟩, by rw [ht]; rfl⟩
    · simpa [ServiceAct.cancels] using own
    · simp [serviceStep, hs, Finset.nodup_toList]
  cases hs : s.stage with
  | idle | waiting => simp [hs] at started
  | released => exact released s hs
  | expired =>
    obtain ⟨acts, t, own, hrun, ht⟩ := released
      { s with workCancelled := true, stage := .released } rfl
    refine ⟨.workCancel :: acts, t, ?_, run_cons.mpr ⟨_, ?_, hrun⟩, ht⟩
    · simpa [ServiceAct.cancels] using own
    · simp [serviceStep, hs]
  | cancelling rest =>
    obtain ⟨acts, t, own, hrun, ht⟩ := cancelling_completes cfg hs
    exact ⟨acts, t, own, hrun, by rw [ht]; rfl⟩
  | waitingAgain | returned => exact ⟨[], s, by simp, rfl, by rw [hs]; rfl⟩

theorem Due.completes (cfg : Config) (h : Due id s) :
    ∃ acts t, (∀ a ∈ acts, a.cancels) ∧ run (serviceStep cfg) s acts = some t ∧ t.stage.listed := by
  refine sweep_completes cfg ⟨?_, ?_⟩ <;> intro hs <;> simp [Due, hs] at h

theorem Due.notified (h : Due id s) : Notified id s := by
  intro listed
  unfold Due at h
  cases hs : s.stage <;> simp_all [Stage.listed]

theorem undisturbed_of_cancels (own : a.cancels) : Undisturbed id s a := by
  cases a with
  | call => cases own
  | _ => trivial

end Runs

/-- A session that is registered when the grace period ends, and not deregistered before the
snapshot is taken, has been cancelled when `Shutdown` goes on to wait. In every state on the way
`Shutdown` can get there by its own steps. -/
theorem expired_session_cancelled {cfg : Config} {id : String} {later : List ServiceAct}
    {s expired t : Service} (hid : id ∈ s.sessions)
    (hexpire : serviceStep cfg s .expire = some expired)
    (hok : Meets (serviceStep cfg) (Undisturbed id) expired later)
    (ht : run (serviceStep cfg) expired later = some t) :
    Notified id t ∧ ∃ own u, (∀ a ∈ own, a.cancels) ∧ run (serviceStep cfg) t own = some u ∧
      u.stage.listed ∧ id ∈ u.cancelled := by
  have due : Due id expired := by
    cases serviceStep_move hexpire with
    | expire => exact hid
  have due : Due id t := hok.invariant (Due id) (fun _ _ _ h hok hs => h.step hok hs) ht due
  obtain ⟨own, u, hown, hu, listed⟩ := due.completes cfg
  have hown' : Meets (serviceStep cfg) (fun _ a => a.cancels) t own := Meets.of_forall hown
  have notified : Due id u := hown'.invariant (Due id)
    (fun _ _ _ h cancels hs => h.step (undisturbed_of_cancels cancels) hs) hu due
  exact ⟨due.notified, own, u, hown, hu, listed, notified.notified listed⟩

instance (id : String) (s : Service) (a : ServiceAct) : Decidable (Undisturbed id s a) :=
  match a with
  | .call _ e => inferInstanceAs (Decidable (s.stage.unlisted → deregistered e ≠ some id))
  | .handle _ | .shutdown | .drain | .finish | .expire | .ctxDone _ | .workCancel | .snapshot _
  | .cancel | .await | .drainAgain | .exitTimer => isTrue trivial

/-- A call waits for the answer to its prompt while `Shutdown` waits for it. -/
def prompting : List ServiceAct := [
  .handle (.ok greeting), .call 0 ⟨.enter, true⟩, .call 0 ⟨.initOnce, none⟩,
  .call 0 ⟨.newSession, .ok "s0"⟩, .call 0 ⟨.registerSession "s0", ()⟩,
  .call 0 ⟨.startSession "s0" "t" 0, ()⟩, .shutdown]

/-- The call is woken by the end of the work context and returns. -/
def woken : List ServiceAct := [
  .call 0 ⟨.prompt "s0" "hi", .error CtxErr.canceled.toError⟩,
  .call 0 ⟨.deregisterSession "s0", ()⟩, .call 0 ⟨.endSession "s0", ()⟩, .call 0 ⟨.done, ()⟩]

/-- `Shutdown` cancels the sessions before the call gets to deregister its own. -/
def sweepFirst : List ServiceAct :=
  ([.workCancel, .snapshot ["s0"], .cancel, .await] : List ServiceAct) ++ woken ++
    ([.drainAgain, .finish] : List ServiceAct)

/-- The call deregisters its session before `Shutdown` looks. -/
def sweepLast : List ServiceAct :=
  ([.workCancel] : List ServiceAct) ++ woken ++
    ([.snapshot [], .await, .drainAgain, .finish] : List ServiceAct)

theorem expired_session_cancelled_first : ∃ s expired t,
    run (serviceStep silent) .new prompting = some s ∧ "s0" ∈ s.sessions ∧
      serviceStep silent s .expire = some expired ∧
        run (serviceStep silent) expired sweepFirst = some t ∧ t.stage = .returned none ∧
          "s0" ∈ t.cancelled := by
  have observed : ((run (serviceStep silent) .new prompting).bind fun s =>
      (serviceStep silent s .expire).bind fun expired =>
        (run (serviceStep silent) expired sweepFirst).map fun t =>
          (decide ("s0" ∈ s.sessions ∧
            Meets (serviceStep silent) (Undisturbed "s0") expired sweepFirst), t.stage)) =
      some (true, .returned none) := by decide +kernel
  simp only [Option.bind_eq_some_iff, Option.map_eq_some_iff, Prod.mk.injEq,
    decide_eq_true_iff] at observed
  obtain ⟨s, hs, expired, hexpire, t, ht, ⟨hid, hok⟩, hstage⟩ := observed
  obtain ⟨notified, -⟩ := expired_session_cancelled hid hexpire hok ht
  exact ⟨s, expired, t, hs, hid, hexpire, ht, hstage, notified (by rw [hstage]; rfl)⟩

/-- The session whose prompt a call waits for. -/
def awaited : Proc (Except GoError Unit) → Option String
  | .call (.prompt id _) _ => some id
  | _ => none

/-- The prompt of a registered session is not answered when the grace period ends, and `Shutdown`
returns without having sent `session/cancel` for it. -/
theorem expired_session_missed : ∃ s expired t,
    run (serviceStep silent) .new prompting = some s ∧ "s0" ∈ s.sessions ∧
      (∃ f ∈ s.flights 0, awaited f.rest = some "s0") ∧
        serviceStep silent s .expire = some expired ∧
          run (serviceStep silent) expired sweepLast = some t ∧ t.stage = .returned none ∧
            ¬ Notified "s0" t := by
  have observed : ((run (serviceStep silent) .new prompting).bind fun s =>
      (serviceStep silent s .expire).bind fun expired =>
        (run (serviceStep silent) expired sweepLast).map fun t =>
          (decide ("s0" ∈ s.sessions), (s.flights 0).bind fun f => awaited f.rest, t.stage,
            t.cancelled)) =
      some (true, some "s0", .returned none, []) := by decide +kernel
  simp only [Option.bind_eq_some_iff, Option.map_eq_some_iff, Prod.mk.injEq,
    decide_eq_true_iff] at observed
  obtain ⟨s, hs, expired, hexpire, t, ht, hid, ⟨f, hf, waits⟩, hstage, hcancelled⟩ := observed
  refine ⟨s, expired, t, hs, hid, ⟨f, hf, waits⟩, hexpire, ht, hstage, fun notified => ?_⟩
  simpa [hcancelled] using notified (by rw [hstage]; rfl)

end Daedalus.Proxy
