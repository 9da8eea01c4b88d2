import Daedalus.Foundation.Shared
import Daedalus.Proxy.Phases

/-!
# Graceful shutdown

Each call goes through its phases. Over all calls it follows that the sessions set is what the calls
have registered, that the tracker has no other entries, and that the wait group counts the calls
between entering and leaving. As the flag is checked together with `wg.Add`, nobody enters once the
flag is set, so that a wait group at zero stays at zero.
-/
namespace Daedalus.Proxy

open Foundation Prog A2A

/-! ## All calls together -/

/-- The agent gives a new session an ID that no other call in progress has. -/
def Distinct (s : Service) : ServiceAct → Prop
  | .call _ e => ∀ id ∈ sessionCreated e, ∀ d < s.next, ∀ f ∈ s.flights d,
    f.rest.result = none → createdBy f.past ≠ some id
  | _ => True

instance (s : Service) (a : ServiceAct) : Decidable (Distinct s a) :=
  match a with
  | .call _ e => inferInstanceAs (Decidable (∀ id ∈ sessionCreated e, ∀ d < s.next,
    ∀ f ∈ s.flights d, f.rest.result = none → createdBy f.past ≠ some id))
  | .handle _ | .shutdown | .drain | .finish | .expire | .ctxDone _ | .workCancel | .snapshot _
  | .cancel | .await | .drainAgain | .exitTimer => isTrue trivial

/-- The handler, in terms of the phases of the calls. -/
structure Orderly (s : Service) (phase : ℕ → Phase) : Prop where
  follows : ∀ c f, s.flights c = some f → Follows Move Ended (phase c) f.rest
  records : ∀ c f, s.flights c = some f → (phase c).Records f.past
  absent : ∀ c, s.flights c = none → phase c = .outside
  fresh : ∀ c, s.next ≤ c → s.flights c = none
  distinct : ∀ c d id, (phase c).session = some id → (phase d).session = some id → c = d
  sessions : SharedBy s.sessions fun c => (phase c).registered
  tracked : SharedBy s.tracked fun c => (phase c).tracked
  counted : s.wg = population (fun c => (phase c).counted) s.next

instance (op : Op) : Nonempty (Ans op) :=
  match op with
  | .enter => ⟨true⟩
  | .now => ⟨""⟩
  | .publish _ _ => ⟨.acked⟩
  | .initOnce | .getMetrics _ | .traceID => ⟨none⟩
  | .newSession | .prompt _ _ => ⟨.ok ""⟩
  | .done | .registerSession _ | .deregisterSession _ | .startSession _ _ _ | .updateTokens _ _
  | .endSession _ => ⟨()⟩

section Orderly

variable {s t : Service} {phase : ℕ → Phase} {c : ℕ} {f : Flight} {e : Event Ans}

/-- A session that is registered or tracked is one that the call has created. -/
theorem Phase.session_of_registered {φ : Phase} {id : String} (h : φ.registered = some id) :
    φ.session = some id := by
  cases φ <;> simp_all [Phase.registered, Phase.session]

theorem Phase.session_of_tracked {φ : Phase} {id : String} (h : φ.tracked = some id) :
    φ.session = some id := by
  unfold Phase.tracked at h
  split at h <;> simp_all [Phase.session]

theorem Move.session {φ φ' : Phase} {id : String} (h : Move φ e φ') (hφ' : φ'.session = some id) :
    φ.session = some id ∨ e = ⟨.newSession, .ok id⟩ := by
  cases h with
  | enter | refuse | leave => cases hφ'
  | pass | register | track | deregister | untrack => exact .inl hφ'
  | create id' =>
    obtain rfl : id' = id := Option.some.inj hφ'
    exact .inr rfl

theorem update_phase {β : Type} (g : Phase → β) (phase : ℕ → Phase) (c : ℕ) (φ : Phase) :
    (fun d => g (Function.update phase c φ d)) =
      Function.update (fun d => g (phase d)) c (g φ) := by
  funext d
  by_cases hdc : d = c
  · simp [hdc]
  · simp [hdc]

theorem effect_inert (s : Service) (h : inert e) : s.effect e = some s := by
  obtain ⟨op, ans⟩ := e
  cases op with
  | enter | done | registerSession | deregisterSession | startSession | endSession => cases h
  | _ => rfl

/-- What a call of `Handle` does to the shared state is what it does to its phase. -/
theorem Orderly.effect {φ : Phase} (h : Orderly s phase) (hlt : c < s.next)
    (hmove : Move (phase c) e φ) (heffect : s.effect e = some t) :
    (SharedBy t.sessions fun d => (Function.update phase c φ d).registered) ∧
      (SharedBy t.tracked fun d => (Function.update phase c φ d).tracked) ∧
        t.wg = population (fun d => (Function.update phase c φ d).counted) s.next := by
  have same : ∀ {β : Type} (g : Phase → β), g φ = g (phase c) →
      (fun d => g (Function.update phase c φ d)) = fun d => g (phase d) := by
    intro β g e
    rw [update_phase, e, Function.update_eq_self c fun d => g (phase d)]
  have sessions : t.sessions = s.sessions → φ.registered = (phase c).registered →
      SharedBy t.sessions fun d => (Function.update phase c φ d).registered := by
    intro ht hφ
    rw [ht, same Phase.registered hφ]
    exact h.sessions
  have tracked : t.tracked = s.tracked → φ.tracked = (phase c).tracked →
      SharedBy t.tracked fun d => (Function.update phase c φ d).tracked := by
    intro ht hφ
    rw [ht, same Phase.tracked hφ]
    exact h.tracked
  have counted : t.wg = s.wg → φ.counted = (phase c).counted →
      t.wg = population (fun d => (Function.update phase c φ d).counted) s.next := by
    intro ht hφ
    rw [ht, same Phase.counted hφ]
    exact h.counted
  generalize hc : phase c = φ₀ at hmove
  cases hmove with
  | enter =>
    obtain ⟨-, rfl⟩ := effect_enter.mp heffect
    refine ⟨sessions rfl (by rw [hc]; rfl), tracked rfl (by rw [hc]; rfl), ?_⟩
    have out : (phase c).counted = false := by rw [hc]; rfl
    have joined := population_join (p := fun d => (phase d).counted) hlt out
    rw [← h.counted] at joined
    rw [update_phase]
    exact joined.symm
  | refuse =>
    obtain ⟨-, rfl⟩ := effect_enter.mp heffect
    exact ⟨sessions rfl (by rw [hc]; rfl), tracked rfl (by rw [hc]; rfl),
      counted rfl (by rw [hc]; rfl)⟩
  | pass busy quiet =>
    rw [effect_inert s quiet] at heffect
    cases heffect
    exact ⟨sessions rfl (by rw [hc]), tracked rfl (by rw [hc]), counted rfl (by rw [hc])⟩
  | create id =>
    cases heffect
    exact ⟨sessions rfl (by rw [hc]; rfl), tracked rfl (by rw [hc]; rfl),
      counted rfl (by rw [hc]; rfl)⟩
  | register id =>
    cases heffect
    refine ⟨?_, tracked rfl (by rw [hc]; rfl), counted rfl (by rw [hc]; rfl)⟩
    rw [update_phase]
    exact h.sessions.insert (by rw [hc]; rfl)
  | track id taskID limit =>
    cases heffect
    refine ⟨sessions rfl (by rw [hc]; rfl), ?_, counted rfl (by rw [hc]; rfl)⟩
    rw [update_phase]
    exact h.tracked.insert (by rw [hc]; rfl)
  | deregister id isTracked =>
    cases heffect
    have own : (phase c).session = some id := by rw [hc]; rfl
    refine ⟨?_, tracked rfl ?_, counted rfl (by rw [hc]; rfl)⟩
    · rw [update_phase]
      refine h.sessions.erase (by rw [hc]; rfl) fun d hd => ?_
      exact h.distinct d c id (Phase.session_of_registered hd) own
    · rw [hc]
      cases isTracked <;> rfl
  | untrack id =>
    cases heffect
    have own : (phase c).session = some id := by rw [hc]; rfl
    refine ⟨sessions rfl (by rw [hc]; rfl), ?_, counted rfl (by rw [hc]; rfl)⟩
    rw [update_phase]
    refine h.tracked.erase (by rw [hc]; rfl) fun d hd => ?_
    exact h.distinct d c id (Phase.session_of_tracked hd) own
  | leave clean =>
    cases heffect
    have before : (phase c).registered = none ∧ (phase c).tracked = none ∧ (phase c).counted := by
      rcases clean with rfl | ⟨id, rfl⟩ <;>
        simp [hc, Phase.registered, Phase.tracked, Phase.counted]
    refine ⟨sessions rfl before.1.symm, tracked rfl before.2.1.symm, ?_⟩
    have left := population_leave (p := fun d => (phase d).counted) hlt before.2.2
    rw [← h.counted] at left
    rw [update_phase]
    exact (Nat.eq_sub_of_add_eq left).symm

/-- A call that has created a session has not returned. -/
theorem result_of_session {φ : Phase} {id : String} {p : Proc (Except GoError Unit)}
    (h : Follows Move Ended φ p) (hsession : φ.session = some id) : p.result = none := by
  cases p with
  | call op next => rfl
  | ret a =>
    rcases h with ⟨rfl, -⟩ | rfl <;> cases hsession

theorem Orderly.call {rest : Proc (Except GoError Unit)} (h : Orderly s phase)
    (hc : s.flights c = some f) (hrest : f.rest.advance e = some rest)
    (heffect : s.effect e = some t) (hok : Distinct s (.call c e)) :
    ∃ φ, Move (phase c) e φ ∧
      Orderly { t with flights := Function.update t.flights c (some ⟨f.past ++ [e], rest⟩) }
        (Function.update phase c φ) := by
  have hlt : c < s.next := by
    by_contra hge
    simp [h.fresh c (by omega)] at hc
  obtain ⟨φ, hmove, follows⟩ := (h.follows c f hc).advance hrest
  obtain ⟨hflights, hnext, -⟩ := effect_frame heffect
  obtain ⟨sessions, tracked, counted⟩ := h.effect hlt hmove heffect
  refine ⟨φ, hmove, ?_, ?_, ?_, ?_, ?_, sessions, tracked, by rw [counted, hnext]⟩ <;>
    simp only [hflights, hnext, Function.update_apply]
  · intro d g hd
    split_ifs at hd ⊢ with hdc
    · cases hd
      exact follows
    · exact h.follows d g hd
  · intro d g hd
    split_ifs at hd ⊢ with hdc
    · cases hd
      exact (h.records c f hc).move hmove
    · exact h.records d g hd
  · intro d hd
    split_ifs at hd ⊢ with hdc
    exact h.absent d hd
  · intro d hd
    split_ifs with hdc
    · omega
    · exact h.fresh d hd
  · -- A session that the call did not have before is one that was just created.
    have kept : ∀ id d, d ≠ c → φ.session = some id → (phase d).session = some id → False := by
      intro id d hdc hφ hd
      rcases hmove.session hφ with hold | rfl
      · exact hdc (h.distinct d c id hd hold)
      · cases hg : s.flights d with
        | none => simp [h.absent d hg, Phase.session] at hd
        | some g =>
          have hdlt : d < s.next := by
            by_contra hge
            simp [h.fresh d (by omega)] at hg
          exact hok id rfl d hdlt g hg (result_of_session (h.follows d g hg) hd)
            ((h.records d g hg).created id hd)
    intro d d' id hd hd'
    split_ifs at hd hd' with hdc hdc' hdc'
    · rw [hdc, hdc']
    · exact (kept id d' hdc' hd hd').elim
    · exact (kept id d hdc hd' hd).elim
    · exact h.distinct d d' id hd hd'

theorem Orderly.handle {cfg : Config} (h : Orderly s phase)
    (data : Except GoError SendMessageRequest) : Orderly { s with
      flights := Function.update s.flights s.next (some ⟨[], Proxy.handle cfg data⟩)
      next := s.next + 1 } phase := by
  have out : phase s.next = .outside := h.absent s.next (h.fresh s.next le_rfl)
  refine ⟨?_, ?_, ?_, ?_, h.distinct, h.sessions, h.tracked, ?_⟩ <;>
    simp only [Function.update_apply]
  · intro c f hc
    split_ifs at hc with hnext
    · cases hc
      rw [hnext, out]
      exact follows_handle data
    · exact h.follows c f hc
  · intro c f hc
    split_ifs at hc with hnext
    · cases hc
      rw [hnext, out]
      constructor <;> simp [registeredBy, createdBy, Phase.registered, Phase.session]
    · exact h.records c f hc
  · intro c hc
    split_ifs at hc
    exact h.absent c hc
  · intro c hc
    rw [if_neg (by omega)]
    exact h.fresh c (by omega)
  · rw [h.counted, population_succ]
    rw [out]
    rfl

/-- A call that has not been let in. -/
def Phase.apart : Phase → Bool
  | .outside | .refused => true
  | _ => false

/-- Once the flag is set nobody is let in. -/
theorem apart_of_move {φ φ' : Phase} (hmove : Move φ e φ') (heffect : s.effect e = some t)
    (hflag : s.shuttingDown) (apart : φ.apart) : φ'.apart := by
  cases hmove with
  | enter => simp [effect_enter, hflag] at heffect
  | refuse => rfl
  | pass => exact apart
  | create | register | track | deregister | untrack => cases apart
  | leave clean => rcases clean with rfl | ⟨id, rfl⟩ <;> cases apart

theorem Orderly.step {cfg : Config} {a : ServiceAct} (h : Orderly s phase) (hok : Distinct s a)
    (hs : serviceStep cfg s a = some t) :
    ∃ phase', Orderly t phase' ∧ (s.shuttingDown → ∀ c, (phase c).apart → (phase' c).apart) := by
  cases serviceStep_move hs with
  | handle data => exact ⟨phase, h.handle data, fun _ _ hc => hc⟩
  | @call c e f rest u hf hrest heffect =>
    obtain ⟨φ, hmove, orderly⟩ := h.call hf hrest heffect hok
    refine ⟨_, orderly, fun hflag d apart => ?_⟩
    by_cases hdc : d = c
    · subst hdc
      simpa using apart_of_move hmove heffect hflag apart
    · simpa [hdc] using apart
  | shutdown | drain | finish | expire | ctxDone | workCancel | snapshot | cancel | await
  | drainAgain | exitTimer =>
    exact ⟨phase, ⟨h.follows, h.records, h.absent, h.fresh, h.distinct, h.sessions, h.tracked,
      h.counted⟩, fun _ _ hc => hc⟩

end Orderly

/-! ## Waiting for the calls -/

/-- What `Shutdown` knows about the handler. -/
structure Closing (s : Service) : Prop where
  closed : s.stage ≠ .idle → s.shuttingDown
  drained : s.done ∨ s.cancelDone ∨ s.stage = .returned none → s.shuttingDown ∧ s.wg = 0

theorem effect_wg_le {s t : Service} {e : Event Ans} (h : s.effect e = some t)
    (hflag : s.shuttingDown) : t.wg ≤ s.wg := by
  obtain ⟨op, ans⟩ := e
  cases op with
  | enter =>
    obtain ⟨haccept, rfl⟩ := effect_enter.mp h
    simp [haccept, hflag]
  | _ =>
    cases h
    simp

theorem Closing.step {cfg : Config} {s t : Service} {a : ServiceAct} (h : Closing s)
    (hs : serviceStep cfg s a = some t) : Closing t := by
  obtain ⟨closed, drained⟩ := h
  cases serviceStep_move hs with
  | handle | expire | workCancel | snapshot | cancel | await | exitTimer =>
    constructor <;> simp_all
  | ctxDone _ _ stage => rcases stage with stage | stage <;> constructor <;> simp_all
  | call hf hrest heffect =>
    obtain ⟨-, -, hflag, hstage, hdone, hcancelDone, -⟩ := effect_frame heffect
    refine ⟨by simpa [hflag, hstage] using closed, fun hdrained => ?_⟩
    obtain ⟨hflag', zero⟩ := drained (by simpa [hdone, hcancelDone, hstage] using hdrained)
    have le := effect_wg_le heffect hflag'
    exact ⟨by rw [hflag, hflag'], by simpa [zero] using le⟩
  | shutdown stage =>
    refine ⟨fun _ => rfl, fun hdrained => ⟨rfl, ?_⟩⟩
    exact (drained (by simpa [stage] using hdrained)).2
  | drain stage zero | drainAgain stage zero =>
    refine ⟨closed, fun _ => ⟨closed ?_, zero⟩⟩
    simp [stage]
  | finish _ stage =>
    have done : s.done ∨ s.cancelDone := stage.imp And.right And.right
    have hdrained := drained (done.imp_right .inl)
    exact ⟨fun _ => hdrained.1, fun _ => hdrained⟩

theorem returned_step {cfg : Config} {s t : Service} {a : ServiceAct} {err : Option GoError}
    (h : s.stage = .returned err) (hs : serviceStep cfg s a = some t) :
    t.stage = .returned err := by
  cases serviceStep_move hs with
  | call hf hrest heffect =>
    obtain ⟨-, -, -, hstage, -⟩ := effect_frame heffect
    simpa [hstage] using h
  | handle | drain => exact h
  | _ => simp_all

/-! ## After the shutdown -/

section Quiescence

variable {cfg : Config} {s t : Service} {phase : ℕ → Phase} {c : ℕ} {f : Flight}
  {p : Proc (Except GoError Unit)}

theorem returned_of_left (h : Follows Move Ended .left p) : ∃ result, p = .ret result := by
  obtain ⟨result, rfl, -⟩ := h.returned (by rintro e φ ⟨⟩ <;> simp_all [Phase.busy])
  exact ⟨result, rfl⟩

theorem rejected_of_refused (h : Follows Move Ended .refused p) : p = .ret (.error rejected) := by
  obtain ⟨result, rfl, hend⟩ := h.returned (by rintro e φ ⟨⟩ <;> simp_all [Phase.busy])
  rcases hend with ⟨-, rfl⟩ | hleft
  · rfl
  · cases hleft

/-- Before it is let in, a call waits for the lock. -/
theorem enter_of_outside (h : Follows Move Ended .outside p) : ∃ next, p = .call .enter next := by
  cases p with
  | ret a => rcases h with ⟨hφ, -⟩ | hφ <;> cases hφ
  | call op next =>
    obtain ⟨ans⟩ := (inferInstance : Nonempty (Ans op))
    obtain ⟨φ, hmove, -⟩ := h ans
    generalize hφ : Phase.outside = φ₀ at hmove
    cases hmove with
    | enter | refuse => exact ⟨next, rfl⟩
    | pass busy => simp [← hφ, Phase.busy] at busy
    | leave clean => simp [← hφ] at clean
    | _ => cases hφ

/-- A call is rejected: it has done nothing yet and can only be refused, or it was refused and has
returned the error. -/
def Rejected (cfg : Config) (s : Service) (c : ℕ) (f : Flight) : Prop :=
  (f.past = [] ∧ ∀ e, (serviceStep cfg s (.call c e)).isSome ↔ e = ⟨.enter, false⟩) ∨
    (f.past = [⟨.enter, false⟩] ∧ f.rest.result = some (.error rejected))

/-- A call is in progress from the moment it is let in until it returns. -/
def Flight.inProgress (f : Flight) : Prop := f.past ≠ [] ∧ f.rest.result = none

theorem Orderly.rejected (h : Orderly s phase) (hflag : s.shuttingDown) (hc : s.flights c = some f)
    (apart : (phase c).apart) : Rejected cfg s c f := by
  have follows := h.follows c f hc
  have records := h.records c f hc
  generalize phase c = φ at apart follows records
  cases φ with
  | outside =>
    obtain ⟨next, hrest⟩ := enter_of_outside follows
    refine .inl ⟨records.outside.mp rfl, fun e => ⟨fun hsome => ?_, ?_⟩⟩
    · obtain ⟨t, ht⟩ := Option.isSome_iff_exists.mp hsome
      simp only [serviceStep, Option.bind_eq_some_iff, Option.map_eq_some_iff, hc] at ht
      obtain ⟨_, ⟨⟩, rest, hadvance, u, heffect, -⟩ := ht
      obtain ⟨_, hop, -⟩ := advance_eq_some.mp hadvance
      obtain ⟨op, ans⟩ := e
      obtain ⟨rfl, -⟩ := Prog.call.inj (hrest.symm.trans hop)
      obtain ⟨rfl, -⟩ := effect_enter.mp heffect
      rw [hflag]
      rfl
    · rintro rfl
      have hadvance : f.rest.advance ⟨.enter, false⟩ = some (next false) :=
        advance_eq_some.mpr ⟨next, hrest, rfl⟩
      have heffect : s.effect ⟨.enter, false⟩ = some s := effect_enter.mpr (by simp [hflag])
      simp [serviceStep, hc, hadvance, heffect]
  | refused =>
    refine .inr ⟨records.refused rfl, ?_⟩
    rw [rejected_of_refused follows]
    rfl
  | _ => cases apart

theorem Orderly.uncounted (h : Orderly s phase) (zero : s.wg = 0) (c : ℕ) :
    (phase c).counted = false := by
  by_cases hlt : c < s.next
  · exact eq_false_of_population (h.counted.symm.trans zero) hlt
  · rw [h.absent c (h.fresh c (by omega))]
    rfl

/-- Where the wait group is at zero no call is in progress. -/
theorem Orderly.quiet (h : Orderly s phase) (zero : s.wg = 0) (hc : s.flights c = some f) :
    ¬ f.inProgress := by
  rintro ⟨hpast, hresult⟩
  have uncounted := h.uncounted zero c
  have follows := h.follows c f hc
  have records := h.records c f hc
  generalize phase c = φ at uncounted follows records
  cases φ with
  | outside => exact hpast (records.outside.mp rfl)
  | refused => simp [rejected_of_refused follows, Prog.result] at hresult
  | left =>
    obtain ⟨result, hrest⟩ := returned_of_left follows
    simp [hrest, Prog.result] at hresult
  | _ => cases uncounted

/-- Where no call is in progress no session ID is taken. -/
theorem distinct_of_quiet (quiet : ∀ c f, s.flights c = some f → ¬ f.inProgress) (a : ServiceAct) :
    Distinct s a := by
  cases a with
  | call c e =>
    intro id _ d _ f hf hresult hcreated
    refine quiet d f hf ⟨?_, hresult⟩
    rintro hpast
    simp [hpast, createdBy] at hcreated
  | _ => trivial

theorem Orderly.empty (h : Orderly s phase) (zero : s.wg = 0) :
    s.sessions = ∅ ∧ s.tracked = ∅ := by
  have sessionless : ∀ c, (phase c).session = none := by
    intro c
    have uncounted := h.uncounted zero c
    cases hφ : phase c <;> simp_all [Phase.counted, Phase.session]
  constructor
  · refine Finset.eq_empty_of_forall_notMem fun id hid => ?_
    obtain ⟨c, hc⟩ := (h.sessions id).mp hid
    simpa [sessionless c] using Phase.session_of_registered hc
  · refine Finset.eq_empty_of_forall_notMem fun id hid => ?_
    obtain ⟨c, hc⟩ := (h.tracked id).mp hid
    simpa [sessionless c] using Phase.session_of_tracked hc

theorem Orderly.new : Orderly .new fun _ => .outside where
  follows := by simp [Service.new]
  records := by simp [Service.new]
  absent _ _ := rfl
  fresh _ _ := rfl
  distinct := by simp [Phase.session]
  sessions := by simp [SharedBy, Service.new, Phase.registered]
  tracked := by simp [SharedBy, Service.new, Phase.tracked]
  counted := by simp [population, Service.new]

theorem Closing.new : Closing .new where
  closed := by simp [Service.new]
  drained := by simp [Service.new]

theorem Orderly.run {acts : List ServiceAct} (hok : Meets (serviceStep cfg) Distinct .new acts)
    (h : run (serviceStep cfg) .new acts = some s) : ∃ phase, Orderly s phase := by
  refine hok.invariant (fun s => ∃ phase, Orderly s phase) ?_ h ⟨_, Orderly.new⟩
  rintro s a t ⟨phase, orderly⟩ hok hs
  obtain ⟨phase', orderly', -⟩ := orderly.step hok hs
  exact ⟨phase', orderly'⟩

/-- After a shutdown without error, whoever had not been let in is rejected. -/
theorem rejected_later {later : List ServiceAct} (orderly : Orderly s phase) (closing : Closing s)
    (hnil : s.stage = .returned none) (h : Foundation.run (serviceStep cfg) s later = some t)
    (hc : t.flights c = some f) (out : ∀ g, s.flights c = some g → g.past = []) :
    Rejected cfg t c f := by
  have hs : (phase c).apart := by
    cases hg : s.flights c with
    | none => simp [orderly.absent c hg, Phase.apart]
    | some g => simp [(orderly.records c g hg).outside.mpr (out g hg), Phase.apart]
  have later := run_invariant
    (fun u => Closing u ∧ u.stage = .returned none ∧ ∃ phase, Orderly u phase ∧ (phase c).apart)
    ?_ h ⟨closing, hnil, phase, orderly, hs⟩
  · obtain ⟨closing, hnil, phase, orderly, apart⟩ := later
    obtain ⟨hflag, -⟩ := closing.drained (.inr (.inr hnil))
    exact orderly.rejected hflag hc apart
  · rintro u a v ⟨closing, hnil, phase, orderly, apart⟩ hs
    obtain ⟨hflag, zero⟩ := closing.drained (.inr (.inr hnil))
    have hok := distinct_of_quiet (fun _ _ => orderly.quiet zero) a
    obtain ⟨phase', orderly', stays⟩ := orderly.step hok hs
    exact ⟨closing.step hs, returned_step hnil hs, phase', orderly', stays hflag c apart⟩

end Quiescence

/-- The sessions set holds what the calls have registered. A shutdown without error leaves no call
in progress, no session, no tracked session, and in every continuation each call that had not been
let in is rejected. -/
theorem shutdown_graceful {cfg : Config} {acts : List ServiceAct} {s : Service}
    (hok : Meets (serviceStep cfg) Distinct .new acts)
    (h : run (serviceStep cfg) .new acts = some s) :
    (∀ id, id ∈ s.sessions ↔ ∃ c f, s.flights c = some f ∧ id ∈ registeredBy f.past) ∧
      (s.stage = .returned none →
        (∀ c f, s.flights c = some f → ¬ f.inProgress) ∧ s.sessions = ∅ ∧ s.tracked = ∅ ∧
          ∀ later t, run (serviceStep cfg) s later = some t → ∀ c f, t.flights c = some f →
            (∀ g, s.flights c = some g → g.past = []) → Rejected cfg t c f) := by
  obtain ⟨phase, orderly⟩ := Orderly.run hok h
  have closing : Closing s := run_invariant Closing (fun _ _ _ hs => hs.step) h Closing.new
  constructor
  · intro id
    rw [orderly.sessions id]
    constructor
    · rintro ⟨c, hc⟩
      cases hf : s.flights c with
      | none => simp [orderly.absent c hf, Phase.registered] at hc
      | some f => exact ⟨c, f, hf, by simp [(orderly.records c f hf).registered, hc]⟩
    · rintro ⟨c, f, hf, hid⟩
      exact ⟨c, by simpa [(orderly.records c f hf).registered] using hid⟩
  · intro hnil
    obtain ⟨-, zero⟩ := closing.drained (.inr (.inr hnil))
    obtain ⟨sessions, tracked⟩ := orderly.empty zero
    refine ⟨fun _ _ => orderly.quiet zero, sessions, tracked, ?_⟩
    intro later t ht c f hc out
    exact rejected_later orderly closing hnil ht hc out

/-- A handler without a publisher, with a tracker. -/
def silent : Config where
  publisher := false
  tracker := true

def greeting : SendMessageRequest where
  message := { messageID := "m", taskID := "t", role := "user", parts := [{ text := "hi" }] }

/-- Two calls are let in before the flag is set. One fails, the other completes, and `Shutdown` sees
both out. A third call comes too late. -/
def orderlyExit : List ServiceAct := [
  .handle (.ok greeting), .handle (.ok greeting),
  .call 0 ⟨.enter, true⟩, .call 1 ⟨.enter, true⟩,
  .call 0 ⟨.initOnce, none⟩, .call 0 ⟨.newSession, .ok "s0"⟩, .call 0 ⟨.registerSession "s0", ()⟩,
  .shutdown,
  .call 0 ⟨.startSession "s0" "t" 0, ()⟩,
  .call 1 ⟨.initOnce, none⟩, .call 1 ⟨.newSession, .ok "s1"⟩, .call 1 ⟨.registerSession "s1", ()⟩,
  .call 0 ⟨.prompt "s0" "hi", .error (.new "acp: client closed")⟩,
  .call 1 ⟨.startSession "s1" "t" 0, ()⟩, .call 1 ⟨.prompt "s1" "hi", .ok "hello"⟩,
  .call 0 ⟨.deregisterSession "s0", ()⟩, .call 0 ⟨.endSession "s0", ()⟩, .call 0 ⟨.done, ()⟩,
  .call 1 ⟨.updateTokens "s1" 1, ()⟩, .call 1 ⟨.now, "1"⟩, .call 1 ⟨.getMetrics "s1", none⟩,
  .call 1 ⟨.traceID, none⟩,
  .call 1 ⟨.deregisterSession "s1", ()⟩, .call 1 ⟨.endSession "s1", ()⟩, .call 1 ⟨.done, ()⟩,
  .drain, .finish, .handle (.ok greeting), .call 2 ⟨.enter, false⟩]

theorem shutdown_graceful_two : ∃ s, run (serviceStep silent) .new orderlyExit = some s ∧
    s.stage = .returned none ∧ s.next = 3 ∧ s.sessions = ∅ ∧ s.tracked = ∅ ∧
      ∀ c f, s.flights c = some f → ¬ f.inProgress := by
  have observed : (run (serviceStep silent) .new orderlyExit).map (fun s => (s.stage, s.next)) =
      some (.returned none, 3) := by decide
  obtain ⟨s, hs, hobserved⟩ := Option.map_eq_some_iff.mp observed
  obtain ⟨hstage, hnext⟩ := Prod.mk.inj hobserved
  have hok : Meets (serviceStep silent) Distinct .new orderlyExit := by decide
  obtain ⟨quiet, sessions, tracked, -⟩ := (shutdown_graceful hok hs).2 hstage
  exact ⟨s, hs, hstage, hnext, sessions, tracked, quiet⟩

end Daedalus.Proxy
