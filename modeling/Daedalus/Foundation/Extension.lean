import Daedalus.Foundation.Store

/-!
# Programs that do more

A program can be modelled twice: once without some of what it does, and once with further calls,
whose answers carry more. `Extends` says that the larger program is the smaller one as far as the
smaller one goes, and `Loop.mirrored` that then its runs against a larger store are runs of the
smaller one, with the further calls left out.
-/
namespace Daedalus.Foundation

namespace Prog

variable {Op Op' : Type} {Ans : Op → Type} {Ans' : Op' → Type} {α β : Type}

/-- What a call of the larger program is to the smaller one: nothing, or a call with what the
smaller program sees of the answer. -/
abbrev View (Ans : Op → Type) (Ans' : Op' → Type) :=
  (op' : Op') → Option ((op : Op) × (Ans' op' → Ans op))

/-- The larger program does what the smaller one does, and after its last call nothing else. -/
def Extends (view : View Ans Ans') : Prog Op' Ans' α → Prog Op Ans α → Prop
  | .ret a, p => p = .ret a
  | .call op' next', p =>
    match view op' with
    | none => p.result = none ∧ ∀ ans, Extends view (next' ans) p
    | some v => ∃ next, p = .call v.1 next ∧ ∀ ans, Extends view (next' ans) (next (v.2 ans))

/-- A program of the smaller kind as one of the larger kind. -/
def lift (embed : Op → Op') (answer : ∀ op, Ans' (embed op) → Ans op) :
    Prog Op Ans α → Prog Op' Ans' α
  | .ret a => .ret a
  | .call op next => .call (embed op) fun ans => (next (answer op ans)).lift embed answer

section Extends

variable {view : View Ans Ans'} {p' : Prog Op' Ans' α} {p : Prog Op Ans α} {op' : Op'} {op : Op}

theorem extends_pure {a : α} : Extends view (pure a) (pure a : Prog Op Ans α) := rfl

theorem extends_call {seen : Ans' op' → Ans op} {f' : Ans' op' → Prog Op' Ans' α}
    {f : Ans op → Prog Op Ans α} (h : view op' = some ⟨op, seen⟩)
    (rest : ∀ ans, Extends view (f' ans) (f (seen ans))) :
    Extends view (perform op' >>= f') (perform op >>= f) := by
  change Extends view (.call op' f') (.call op f)
  simp only [Extends, h]
  exact ⟨f, rfl, rest⟩

/-- A call that the smaller program does not make. -/
theorem extends_silent {f' : Ans' op' → Prog Op' Ans' α} (h : view op' = none)
    (busy : p.result = none) (rest : ∀ ans, Extends view (f' ans) p) :
    Extends view (perform op' >>= f') p := by
  change Extends view (.call op' f') p
  simp only [Extends, h]
  exact ⟨busy, rest⟩

theorem Extends.bind {f' : α → Prog Op' Ans' β} {f : α → Prog Op Ans β} (h : Extends view p' p)
    (rest : ∀ a, Extends view (f' a) (f a)) : Extends view (p' >>= f') (p >>= f) := by
  change Extends view (p'.bind f') (p.bind f)
  induction p' generalizing p with
  | ret a =>
    obtain rfl : p = .ret a := h
    exact rest a
  | call op' next' ih =>
    simp only [Extends, Prog.bind] at h ⊢
    split at h
    · refine ⟨?_, fun ans => ih ans (h.2 ans)⟩
      cases p with
      | ret a => cases h.1
      | call op next => rfl
    · obtain ⟨next, rfl, hnext⟩ := h
      exact ⟨_, rfl, fun ans => ih ans (hnext ans)⟩

theorem extends_lift {embed : Op → Op'} {answer : ∀ op, Ans' (embed op) → Ans op}
    (h : ∀ op, view (embed op) = some ⟨op, answer op⟩) (p : Prog Op Ans α) :
    Extends view (p.lift embed answer) p := by
  induction p with
  | ret a => rfl
  | call op next ih =>
    simp only [lift, Extends, h]
    exact ⟨next, rfl, fun ans => ih _⟩

/-- Both return at the same time. -/
theorem Extends.result_isSome (h : Extends view p' p) :
    p'.result.isSome = p.result.isSome := by
  cases p' with
  | ret a =>
    obtain rfl : p = .ret a := h
    rfl
  | call op' next' =>
    simp only [Extends] at h
    split at h
    · rw [h.1]
      rfl
    · obtain ⟨next, rfl, -⟩ := h
      rfl

end Extends

/-! ## What a program can return -/

/-- Whatever its calls answer, the program returns such a value. -/
def Returns (P : α → Prop) : Prog Op Ans α → Prop
  | .ret a => P a
  | .call _ next => ∀ ans, Returns P (next ans)

variable {P : α → Prop} {p : Prog Op Ans α}

theorem returns_always (h : ∀ a, P a) (p : Prog Op Ans α) : Returns P p := by
  induction p with
  | ret a => exact h a
  | call op next ih => exact ih

theorem Returns.bind {f : α → Prog Op Ans β} {R : β → Prop} (h : Returns P p)
    (rest : ∀ a, P a → Returns R (f a)) : Returns R (p >>= f) := by
  change Returns R (p.bind f)
  induction p with
  | ret a => exact rest a h
  | call op next ih => exact fun ans => ih ans (h ans)

section Keeps

variable {σ ρ : Type} {api : Store Op' Ans' σ ρ} {rely : σ → σ → Prop} {Inv : σ → Prop} {s : σ}

/-- A lifted program keeps what each of its calls keeps. -/
theorem keeps_lift {embed : Op → Op'} {answer : ∀ op, Ans' (embed op) → Ans op}
    (stable : ∀ s t, rely s t → Inv s → Inv t)
    (kept : ∀ op u r t ans, Inv u → api (embed op) u r = some (t, ans) → Inv t)
    (returns : Returns P p) (h : Inv s) :
    (p.lift embed answer).Keeps api rely Inv (fun _ a => P a) s := by
  induction p generalizing s with
  | ret a => exact ⟨h, returns⟩
  | call op next ih =>
    intro u hu
    have hinv := stable s u hu h
    exact ⟨hinv, fun r t ans ht => ih _ (returns _) (kept op u r t ans hinv ht)⟩

end Keeps

end Prog

/-! ## The smaller system -/

namespace Loop

variable {Op Op' : Type} {Ans : Op → Type} {Ans' : Op' → Type} {σ σ' ρ ρ' ε ε' α : Type}
  {view : Prog.View Ans Ans'} {abs : σ' → σ} {api : Prog.Store Op Ans σ ρ}
  {api' : Prog.Store Op' Ans' σ' ρ'} {others : σ → ε → σ} {others' : σ' → ε' → σ'}
  {p : Prog Op Ans α} {p' : Prog Op' Ans' α} {s t : Loop Op' Ans' σ' α} {u : Loop Op Ans σ α}

/-- The smaller system next to the larger one. -/
def Mirrors (view : Prog.View Ans Ans') (abs : σ' → σ) (s : Loop Op' Ans' σ' α)
    (u : Loop Op Ans σ α) : Prop :=
  u.store = abs s.store ∧
    (s.idle ∧ u.idle ∨ ∃ q' q, s.proc = some q' ∧ u.proc = some q ∧ q'.Extends view q)

theorem Mirrors.idle_eq (h : Mirrors view abs s u) : s.idle = u.idle := by
  obtain ⟨-, ⟨hs, hu⟩ | ⟨q', q, hq', hq, extends_⟩⟩ := h
  · rw [hs, hu]
  · simp [Loop.idle, hq', hq, extends_.result_isSome]

/-- What others do to the larger store they do to the smaller one, or it is not seen there. -/
theorem Mirrors.other (h : Mirrors view abs s u) (e : ε')
    (seen : ∀ c e, abs (others' c e) = abs c ∨ ∃ e', abs (others' c e) = others (abs c) e') :
    ∃ acts v, run (step api others p) u acts = some v ∧
      Mirrors view abs ⟨others' s.store e, if s.idle then none else s.proc⟩ v := by
  have rest : ∀ v : Loop Op Ans σ α, v.store = abs (others' s.store e) →
      v.idle = u.idle → (u.idle = false → v.proc = u.proc) →
      Mirrors view abs ⟨others' s.store e, if s.idle then none else s.proc⟩ v := by
    intro v store idle proc
    refine ⟨store, ?_⟩
    cases hidle : s.idle with
    | true => exact .inl ⟨rfl, by rw [idle, ← h.idle_eq, hidle]⟩
    | false =>
      have busy : u.idle = false := h.idle_eq ▸ hidle
      obtain ⟨-, ⟨hs, -⟩ | ⟨q', q, hq', hq, extends_⟩⟩ := h
      · simp [hidle] at hs
      · exact .inr ⟨q', q, by simpa using hq', (proc busy).trans hq, extends_⟩
  rcases seen s.store e with same | ⟨e', changed⟩
  · exact ⟨[], u, rfl, rest u (h.1.trans same.symm) rfl fun _ => rfl⟩
  · refine ⟨[.other e'], ⟨others u.store e', if u.idle then none else u.proc⟩, rfl,
      rest _ ?_ ?_ ?_⟩
    · rw [changed, h.1]
    · cases hidle : u.idle with
      | true => rfl
      | false => simpa [Loop.idle] using hidle
    · intro busy
      simp [busy]

theorem Mirrors.call (h : Mirrors view abs s u) {r : ρ'}
    (silent : ∀ op' c r d ans, view op' = none → api' op' c r = some (d, ans) → abs d = abs c)
    (visible : ∀ op' v c r d ans, view op' = some v → api' op' c r = some (d, ans) →
      ∃ r', api v.1 (abs c) r' = some (abs d, v.2 ans))
    (hstep : step api' others' p' s (.call r) = some t) :
    ∃ acts v, run (step api others p) u acts = some v ∧ Mirrors view abs t v := by
  simp only [step, Option.bind_eq_some_iff, Option.map_eq_some_iff] at hstep
  obtain ⟨q', hq', ⟨d, rest'⟩, hserve, rfl⟩ := hstep
  cases q' with
  | ret a => cases hserve
  | call op' next' =>
    obtain ⟨⟨d', ans⟩, hanswer, e⟩ := Option.map_eq_some_iff.mp hserve
    obtain ⟨rfl, rfl⟩ := Prod.mk.inj e
    obtain ⟨store, ⟨hidle, -⟩ | ⟨_, q, hq'', hq, extends_⟩⟩ := h
    · simp [Loop.idle, hq', Prog.result] at hidle
    · obtain rfl := Option.some.inj (hq'.symm.trans hq'')
      simp only [Prog.Extends] at extends_
      split at extends_
      · rename_i unseen
        have same := silent op' s.store r d' ans unseen hanswer
        exact ⟨[], u, rfl, store.trans same.symm, .inr ⟨_, q, rfl, hq, extends_.2 ans⟩⟩
      · rename_i v seen
        obtain ⟨next, rfl, hnext⟩ := extends_
        obtain ⟨r', hr'⟩ := visible op' v s.store r d' ans seen hanswer
        refine ⟨[.call r'], ⟨abs d', some (next (v.2 ans))⟩, ?_, rfl,
          .inr ⟨_, _, rfl, rfl, hnext ans⟩⟩
        simp [run, step, hq, Prog.serve, store, hr']

/-- The runs of the larger system are runs of the smaller one. -/
theorem mirrored {c : σ'} {acts : List (Act ε' ρ')} (extends_ : p'.Extends view p)
    (silent : ∀ op' c r d ans, view op' = none → api' op' c r = some (d, ans) → abs d = abs c)
    (visible : ∀ op' v c r d ans, view op' = some v → api' op' c r = some (d, ans) →
      ∃ r', api v.1 (abs c) r' = some (abs d, v.2 ans))
    (seen : ∀ c e, abs (others' c e) = abs c ∨ ∃ e', abs (others' c e) = others (abs c) e')
    (h : run (step api' others' p') ⟨c, none⟩ acts = some t) :
    ∃ acts' v, run (step api others p) ⟨abs c, none⟩ acts' = some v ∧ v.store = abs t.store := by
  have matched : ∀ s u act t, Mirrors view abs s u → step api' others' p' s act = some t →
      ∃ acts v, run (step api others p) u acts = some v ∧ Mirrors view abs t v := by
    intro s u act t mirrors hstep
    cases act with
    | other e =>
      cases hstep
      exact mirrors.other e seen
    | start =>
      simp only [step] at hstep
      split_ifs at hstep with idle
      cases hstep
      refine ⟨[.start], { u with proc := some p }, ?_, mirrors.1,
        .inr ⟨p', p, rfl, rfl, extends_⟩⟩
      simp [run, step, ← mirrors.idle_eq, idle]
    | call r => exact mirrors.call silent visible hstep
  have start : Mirrors view abs (⟨c, none⟩ : Loop Op' Ans' σ' α) ⟨abs c, none⟩ :=
    ⟨rfl, .inl ⟨rfl, rfl⟩⟩
  obtain ⟨acts', v, hv, mirrors⟩ := run_simulates matched h start
  exact ⟨acts', v, hv, mirrors.1⟩

end Loop

end Daedalus.Foundation
