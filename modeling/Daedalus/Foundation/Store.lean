import Daedalus.Foundation.Interaction
import Daedalus.Foundation.Run

/-!
# Programs against a store

A program whose calls are answered by a store. Each call reads or changes the store; what becomes
of it (it may fail, or fail after it took effect) is part of the run. Others may change the store
between two calls, within `rely`. `Keeps` says that the store meets an invariant whenever the
program is about to make a call, and a postcondition at the moment it returns. It has the rules of
a program logic, it survives every call that is answered and everything the others do, and
`Loop.keeps` carries it along the runs in which the program is started again and again.
-/
namespace Daedalus.Foundation

namespace Prog

variable {Op : Type} {Ans : Op → Type} {σ ρ α β : Type}

/-- How a store answers a call, given what becomes of the call. -/
abbrev Store (Op : Type) (Ans : Op → Type) (σ ρ : Type) := (op : Op) → σ → ρ → Option (σ × Ans op)

/-- The call that the program is about to make. -/
def nextCall : Prog Op Ans α → Option Op
  | .ret _ => none
  | .call op _ => some op

/-- The next call is answered. -/
def serve (api : Store Op Ans σ ρ) : Prog Op Ans α → σ → ρ → Option (σ × Prog Op Ans α)
  | .ret _, _, _ => none
  | .call op next, s, r => (api op s r).map fun x => (x.1, next x.2)

/-- The store meets `Inv` before every call, whatever the others did since the last one, and `Inv`
and `post` when the program returns. -/
def Keeps (api : Store Op Ans σ ρ) (rely : σ → σ → Prop) (Inv : σ → Prop) (post : σ → α → Prop) :
    Prog Op Ans α → σ → Prop
  | .ret a, s => Inv s ∧ post s a
  | .call op next, s => ∀ u, rely s u →
    Inv u ∧ ∀ r t ans, api op u r = some (t, ans) → Keeps api rely Inv post (next ans) t

variable {api : Store Op Ans σ ρ} {rely : σ → σ → Prop} {Inv Inv' : σ → Prop}
  {post post' : σ → α → Prop} {s t : σ} {p q : Prog Op Ans α} {r : ρ}

theorem keeps_pure {a : α} : Keeps api rely Inv post (pure a) s ↔ Inv s ∧ post s a := Iff.rfl

/-- A program that fails need not show what it promises on success. -/
theorem keeps_error {ε : Type} {err : ε} {Q : σ → α → Prop} (h : Inv s) :
    Keeps api rely Inv (fun t r => ∀ a, r = .ok a → Q t a)
      (pure (.error err) : Prog Op Ans (Except ε α)) s := by
  refine keeps_pure.mpr ⟨h, ?_⟩
  intro a e
  cases e

/-- One call: the others leave the invariant alone, and every answer is dealt with. -/
theorem keeps_call {op : Op} {f : Ans op → Prog Op Ans α}
    (stable : ∀ s t, rely s t → Inv s → Inv t) (h : Inv s)
    (answered : ∀ u r t ans, rely s u → Inv u → api op u r = some (t, ans) →
      Keeps api rely Inv post (f ans) t) : Keeps api rely Inv post (perform op >>= f) s :=
  fun u hu => ⟨stable s u hu h, fun r t ans ht => answered u r t ans hu (stable s u hu h) ht⟩

theorem Keeps.mono (h : Keeps api rely Inv post p s) (inv : ∀ s, Inv s → Inv' s)
    (weaken : ∀ s a, Inv s → post s a → post' s a) : Keeps api rely Inv' post' p s := by
  induction p generalizing s with
  | ret a => exact ⟨inv s h.1, weaken s a h.1 h.2⟩
  | call op next ih =>
    intro u hu
    obtain ⟨hinv, hnext⟩ := h u hu
    exact ⟨inv u hinv, fun r t ans ht => ih ans (hnext r t ans ht)⟩

/-- Sequencing: where the first program returns, the second one takes over. -/
theorem Keeps.bind {f : α → Prog Op Ans β} {post : σ → β → Prop}
    (h : Keeps api rely Inv (fun t a => Keeps api rely Inv post (f a) t) p s) :
    Keeps api rely Inv post (p >>= f) s := by
  change Keeps api rely Inv post (p.bind f) s
  induction p generalizing s with
  | ret a => exact h.2
  | call op next ih =>
    intro u hu
    obtain ⟨hinv, hnext⟩ := h u hu
    exact ⟨hinv, fun r t ans ht => ih ans (hnext r t ans ht)⟩

theorem Keeps.inv (h : Keeps api rely Inv post p s) (refl : rely s s) : Inv s := by
  cases p with
  | ret a => exact h.1
  | call op next => exact (h s refl).1

theorem Keeps.serve (h : Keeps api rely Inv post p s) (refl : rely s s)
    (hs : p.serve api s r = some (t, q)) : Keeps api rely Inv post q t := by
  cases p with
  | ret a => cases hs
  | call op next =>
    obtain ⟨⟨u, ans⟩, hu, e⟩ := Option.map_eq_some_iff.mp hs
    obtain ⟨rfl, rfl⟩ := Prod.mk.inj e
    exact (h s refl).2 r u ans hu

theorem Keeps.interfere (h : Keeps api rely Inv post p s) (hp : p.result = none)
    (trans : ∀ u, rely t u → rely s u) : Keeps api rely Inv post p t := by
  cases p with
  | ret a => cases hp
  | call op next => exact fun u hu => h u (trans u hu)

/-! ## One call of a program -/

/-- The calls of the program are answered one after the other until it returns, and nobody else
changes the store. -/
def exec (api : Store Op Ans σ ρ) : Prog Op Ans α → σ → List ρ → Option (σ × α)
  | .ret a, s, [] => some (s, a)
  | .call op next, s, r :: rs => (api op s r).bind fun x => exec api (next x.2) x.1 rs
  | _, _, _ => none

variable {rs : List ρ} {b : β}

@[simp] theorem exec_pure {a a' : α} :
    exec api (pure a) s rs = some (t, a') ↔ rs = [] ∧ s = t ∧ a = a' := by
  change exec api (.ret a) s rs = some (t, a') ↔ _
  cases rs <;> simp [exec]

theorem exec_call {op : Op} {f : Ans op → Prog Op Ans β} :
    exec api (perform op >>= f) s rs = some (t, b) ↔
      ∃ r rest u ans, rs = r :: rest ∧ api op s r = some (u, ans) ∧
        exec api (f ans) u rest = some (t, b) := by
  change exec api (.call op f) s rs = some (t, b) ↔ _
  cases rs with
  | nil => simp [exec]
  | cons r rest =>
    simp only [exec, Option.bind_eq_some_iff, Prod.exists]
    constructor
    · rintro ⟨u, ans, hapi, hrest⟩
      exact ⟨r, rest, u, ans, rfl, hapi, hrest⟩
    · rintro ⟨_, _, u, ans, ⟨⟩, hapi, hrest⟩
      exact ⟨u, ans, hapi, hrest⟩

/-- Sequencing splits the answers. -/
theorem exec_bind {f : α → Prog Op Ans β} :
    exec api (p >>= f) s rs = some (t, b) ↔
      ∃ rs₁ rs₂ u a, rs = rs₁ ++ rs₂ ∧ exec api p s rs₁ = some (u, a) ∧
        exec api (f a) u rs₂ = some (t, b) := by
  change exec api (p.bind f) s rs = some (t, b) ↔ _
  induction p generalizing s rs with
  | ret a =>
    constructor
    · intro h
      exact ⟨[], rs, s, a, rfl, rfl, h⟩
    · rintro ⟨rs₁, rs₂, u, a', rfl, h₁, h₂⟩
      obtain ⟨rfl, rfl, rfl⟩ := exec_pure.mp (show exec api (pure a) s rs₁ = some (u, a') from h₁)
      exact h₂
  | call op next ih =>
    constructor
    · intro h
      obtain ⟨r, rest, u, ans, rfl, hapi, h⟩ := exec_call.mp
        (show exec api (perform op >>= fun ans => (next ans).bind f) s rs = some (t, b) from h)
      obtain ⟨rs₁, rs₂, v, a, rfl, h₁, h₂⟩ := (ih ans).mp h
      exact ⟨r :: rs₁, rs₂, v, a, rfl, exec_call.mpr ⟨r, rs₁, u, ans, rfl, hapi, h₁⟩, h₂⟩
    · rintro ⟨rs₁, rs₂, v, a, rfl, h₁, h₂⟩
      obtain ⟨r, rest, u, ans, rfl, hapi, h₁⟩ := exec_call.mp
        (show exec api (perform op >>= next) s rs₁ = some (v, a) from h₁)
      exact exec_call.mpr ⟨r, rest ++ rs₂, u, ans, rfl, hapi,
        (ih ans).mpr ⟨rest, rs₂, v, a, rfl, h₁, h₂⟩⟩

/-! ## Answers of one kind -/

/-- The program makes `n` calls, all answered in the same way, and returns. -/
def Settles (api : Store Op Ans σ ρ) (r : ρ) (n : ℕ) (p : Prog Op Ans α) (s t : σ) (a : α) : Prop :=
  exec api p s (List.replicate n r) = some (t, a)

theorem settles_pure {a : α} : Settles api r 0 (pure a) s s a := exec_pure.mpr ⟨rfl, rfl, rfl⟩

theorem settles_call {op : Op} {f : Ans op → Prog Op Ans β} {n : ℕ} {u : σ} {ans : Ans op}
    (answered : api op s r = some (u, ans)) (rest : Settles api r n (f ans) u t b) :
    Settles api r (n + 1) (perform op >>= f) s t b :=
  exec_call.mpr ⟨r, List.replicate n r, u, ans, List.replicate_succ, answered, rest⟩

theorem Settles.bind {f : α → Prog Op Ans β} {n m : ℕ} {u : σ} {a : α}
    (first : Settles api r n p s u a) (rest : Settles api r m (f a) u t b) :
    Settles api r (n + m) (p >>= f) s t b := by
  refine exec_bind.mpr ⟨_, _, u, a, ?_, first, rest⟩
  rw [List.replicate_add]

/-- A program returns if its calls can always be answered. -/
theorem settles_of_answered (answered : ∀ op s, (api op s r).isSome) :
    ∃ n t a, Settles api r n p s t a := by
  induction p generalizing s with
  | ret a => exact ⟨0, s, a, settles_pure⟩
  | call op next ih =>
    obtain ⟨⟨u, ans⟩, hu⟩ := Option.isSome_iff_exists.mp (answered op s)
    obtain ⟨n, t, a, rest⟩ := ih ans (s := u)
    exact ⟨n + 1, t, a, settles_call hu rest⟩

/-- What every call keeps, the program keeps. -/
theorem Settles.keeps {J : σ → Prop} {n : ℕ} {a : α} (h : Settles api r n p s t a)
    (kept : ∀ op s t ans, J s → api op s r = some (t, ans) → J t) (hs : J s) : J t := by
  induction p generalizing s n with
  | ret b =>
    obtain ⟨-, rfl, -⟩ := exec_pure.mp (show exec api (pure b) s _ = some (t, a) from h)
    exact hs
  | call op next ih =>
    obtain ⟨r', rest, u, ans, e, hu, hrest⟩ := exec_call.mp
      (show exec api (perform op >>= next) s (List.replicate n r) = some (t, a) from h)
    cases n with
    | zero => cases e
    | succ n =>
      obtain ⟨rfl, rfl⟩ := List.cons.inj (List.replicate_succ.symm.trans e)
      exact ih ans hrest (kept op s u ans hs hu)

end Prog

/-! ## Running a program again and again -/

/-- A store, and the call of the program that is in progress or has just returned. -/
structure Loop (Op : Type) (Ans : Op → Type) (σ α : Type) where
  store : σ
  proc : Option (Prog Op Ans α)

namespace Loop

variable {Op : Type} {Ans : Op → Type} {σ ρ ε α : Type}

inductive Act (ε ρ : Type) where
  /-- Others change the store. -/
  | other (e : ε)
  /-- The program is called. -/
  | start
  /-- Its next call is answered. -/
  | call (r : ρ)

/-- What the program returned, if nothing happened since. -/
def result (s : Loop Op Ans σ α) : Option α := s.proc.bind (·.result)

def idle (s : Loop Op Ans σ α) : Bool := s.proc.all (·.result.isSome)

def step (api : Prog.Store Op Ans σ ρ) (others : σ → ε → σ) (p : Prog Op Ans α)
    (s : Loop Op Ans σ α) : Act ε ρ → Option (Loop Op Ans σ α)
  | .other e => some ⟨others s.store e, if s.idle then none else s.proc⟩
  | .start => if s.idle then some { s with proc := some p } else none
  | .call r => s.proc.bind fun q => (q.serve api s.store r).map fun x => ⟨x.1, some x.2⟩

variable {api : Prog.Store Op Ans σ ρ} {rely : σ → σ → Prop} {Inv : σ → Prop}
  {post : σ → α → Prop} {others : σ → ε → σ} {p : Prog Op Ans α} {s t : Loop Op Ans σ α} {a : α}

/-- The store meets the invariant, and the program in progress keeps it. -/
def Kept (api : Prog.Store Op Ans σ ρ) (rely : σ → σ → Prop) (Inv : σ → Prop)
    (post : σ → α → Prop) (s : Loop Op Ans σ α) : Prop :=
  Inv s.store ∧ ∀ q ∈ s.proc, q.Keeps api rely Inv post s.store

theorem Kept.of_result (h : Kept api rely Inv post s) (ha : s.result = some a) :
    post s.store a := by
  obtain ⟨q, hq, hres⟩ := Option.bind_eq_some_iff.mp ha
  have kept := h.2 q hq
  cases q with
  | ret b =>
    cases hres
    exact kept.2
  | call op next => cases hres

/-- An execution of the program, as a run. -/
theorem run_of_exec {q : Prog Op Ans α} {c d : σ} {rs : List ρ}
    (h : q.exec api c rs = some (d, a)) :
    run (step api others p) ⟨c, some q⟩ (rs.map .call) = some ⟨d, some (.ret a)⟩ := by
  induction rs generalizing q c with
  | nil =>
    cases q with
    | ret b =>
      cases h
      rfl
    | call op next => cases h
  | cons r rs ih =>
    cases q with
    | ret b => cases h
    | call op next =>
      simp only [Prog.exec, Option.bind_eq_some_iff] at h
      obtain ⟨x, hx, hrest⟩ := h
      refine run_cons.mpr ⟨⟨x.1, some (next x.2)⟩, ?_, ih hrest⟩
      simp [step, Prog.serve, hx]

/-- Once no call fails, a program that is under way returns. -/
theorem run_of_settles {q : Prog Op Ans α} {c d : σ} {r : ρ} {n : ℕ}
    (h : q.Settles api r n c d a) :
    run (step api others p) ⟨c, some q⟩ (List.replicate n (.call r)) = some ⟨d, some (.ret a)⟩ := by
  rw [← List.map_replicate]
  exact run_of_exec h

variable (refl : ∀ s, rely s s) (trans : ∀ s t u, rely s t → rely t u → rely s u)
  (stable : ∀ s t, rely s t → Inv s → Inv t) (within : ∀ s e, rely s (others s e))
  (start : ∀ s, Inv s → p.Keeps api rely Inv post s)

include refl trans stable within start

theorem kept_step {act : Act ε ρ} (h : Kept api rely Inv post s)
    (hstep : step api others p s act = some t) : Kept api rely Inv post t := by
  cases act with
  | other e =>
    cases hstep
    refine ⟨stable _ _ (within s.store e) h.1, ?_⟩
    intro q hq
    have hq : (if s.idle then none else s.proc) = some q := hq
    split_ifs at hq with busy
    refine (h.2 q hq).interfere ?_ fun u hu => trans _ _ _ (within s.store e) hu
    simpa [idle, hq] using busy
  | start =>
    simp only [step] at hstep
    split_ifs at hstep
    cases hstep
    refine ⟨h.1, ?_⟩
    rintro _ ⟨⟩
    exact start s.store h.1
  | call r =>
    simp only [step, Option.bind_eq_some_iff, Option.map_eq_some_iff] at hstep
    obtain ⟨q, hq, ⟨u, q'⟩, hserve, rfl⟩ := hstep
    have kept := (h.2 q hq).serve (refl s.store) hserve
    refine ⟨kept.inv (refl u), ?_⟩
    rintro _ ⟨⟩
    exact kept

/-- What the program keeps each time it is called, it keeps along every run. -/
theorem keeps {acts : List (Act ε ρ)} {c : σ}
    (hrun : run (step api others p) ⟨c, none⟩ acts = some t) (hc : Inv c) :
    Kept api rely Inv post t :=
  run_invariant (Kept api rely Inv post)
    (fun _ _ _ h hstep => kept_step refl trans stable within start h hstep) hrun
    ⟨hc, by simp⟩

/-! ## Runs in which only some answers are given -/

omit refl trans stable within start

/-- The answer to the next call of the program is one that `ok` allows. -/
def Allowed (ok : Op → σ → ρ → Prop) (s : Loop Op Ans σ α) : Act ε ρ → Prop
  | .call r => ∀ op ∈ s.proc.bind (·.nextCall), ok op s.store r
  | _ => True

instance (ok : Op → σ → ρ → Prop) [∀ op s r, Decidable (ok op s r)] (s : Loop Op Ans σ α) :
    ∀ act : Act ε ρ, Decidable (Allowed ok s act)
  | .call r => inferInstanceAs (Decidable (∀ op ∈ s.proc.bind (·.nextCall), ok op s.store r))
  | .other _ => isTrue trivial
  | .start => isTrue trivial

variable {ok : Op → σ → ρ → Prop}

open Classical in
/-- The store that gives the allowed answers only. -/
noncomputable def restrict (ok : Op → σ → ρ → Prop) (api : Prog.Store Op Ans σ ρ) :
    Prog.Store Op Ans σ ρ :=
  fun op s r => if ok op s r then api op s r else none

theorem restrict_eq_some {op : Op} {c : σ} {r : ρ} {x : σ × Ans op} :
    restrict ok api op c r = some x ↔ ok op c r ∧ api op c r = some x := by
  unfold restrict
  split_ifs with h <;> simp [h]

theorem step_restrict {act : Act ε ρ} (hok : Allowed ok s act) :
    step (restrict ok api) others p s act = step api others p s act := by
  cases act with
  | other e => rfl
  | start => rfl
  | call r =>
    cases hproc : s.proc with
    | none => simp [step, hproc]
    | some q =>
      cases q with
      | ret b => simp [step, hproc, Prog.serve]
      | call op next =>
        have hok : ok op s.store r := hok op (by simp [hproc, Prog.nextCall])
        simp [step, hproc, Prog.serve, restrict, hok]

/-- A run whose answers are all allowed is one of the restricted store. -/
theorem run_restrict {acts : List (Act ε ρ)} (hok : Meets (step api others p) (Allowed ok) s acts)
    (h : run (step api others p) s acts = some t) :
    run (step (restrict ok api) others p) s acts = some t := by
  induction acts generalizing s with
  | nil => exact h
  | cons act acts ih =>
    obtain ⟨u, hu, ht⟩ := run_cons.mp h
    exact run_cons.mpr ⟨u, (step_restrict hok.1).trans hu, ih (hok.2 u hu) ht⟩

end Loop

end Daedalus.Foundation
