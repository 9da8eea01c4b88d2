import Mathlib

/-!
# Programs that talk to their surroundings

A function that calls out (to a server, a clock, a lock, another goroutine) is a tree of calls:
each call names an operation and continues with the answer. Nothing is said about what the answers
are; an execution is the list of calls made with the answers received. `replay` checks such a list
against the program and gives the value returned, so one definition of the function serves
whole executions (replayed at once) and interleaved ones (one call at a time).
-/
namespace Daedalus.Foundation

inductive Prog (Op : Type) (Ans : Op → Type) (α : Type) where
  | ret (a : α)
  | call (op : Op) (next : Ans op → Prog Op Ans α)

/-- A call that was made, and its answer. -/
structure Event {Op : Type} (Ans : Op → Type) where
  op : Op
  ans : Ans op

namespace Prog

variable {Op : Type} {Ans : Op → Type} {α β : Type}

def bind (f : α → Prog Op Ans β) : Prog Op Ans α → Prog Op Ans β
  | .ret a => f a
  | .call op next => .call op fun ans => (next ans).bind f

instance : Monad (Prog Op Ans) where
  pure := .ret
  bind p f := p.bind f

/-- Make one call and return its answer. -/
def perform (op : Op) : Prog Op Ans (Ans op) := .call op .ret

section Executions

variable [DecidableEq Op]

/-- The value a program returns when its calls are exactly the given ones. -/
def replay : Prog Op Ans α → List (Event Ans) → Option α
  | .ret a, [] => some a
  | .ret _, _ :: _ => none
  | .call _ _, [] => none
  | .call op next, e :: es =>
    if h : e.op = op then replay (next (h ▸ e.ans)) es else none

variable {es : List (Event Ans)} {a : α} {b : β}

@[simp] theorem replay_ret {a' : α} :
    replay (.ret a : Prog Op Ans α) es = some a' ↔ es = [] ∧ a = a' := by
  cases es <;> simp [replay]

@[simp] theorem replay_pure {a' : α} :
    replay (pure a : Prog Op Ans α) es = some a' ↔ es = [] ∧ a = a' := replay_ret

theorem replay_call {op : Op} {next : Ans op → Prog Op Ans α} :
    replay (.call op next) es = some a ↔
      ∃ ans rest, es = ⟨op, ans⟩ :: rest ∧ replay (next ans) rest = some a := by
  cases es with
  | nil => simp [replay]
  | cons e es =>
    obtain ⟨op', ans⟩ := e
    constructor
    · intro h
      simp only [replay] at h
      split_ifs at h with e
      subst e
      exact ⟨ans, es, rfl, h⟩
    · rintro ⟨ans', rest, e, h⟩
      cases e
      simpa [replay] using h

/-- Sequencing two programs splits the calls. -/
@[simp] theorem replay_bind {p : Prog Op Ans α} {f : α → Prog Op Ans β} :
    replay (p >>= f) es = some b ↔
      ∃ es₁ es₂, es = es₁ ++ es₂ ∧ ∃ a, replay p es₁ = some a ∧ replay (f a) es₂ = some b := by
  change replay (p.bind f) es = some b ↔ _
  induction p generalizing es with
  | ret a =>
    simp only [bind, replay_ret]
    constructor
    · intro h
      exact ⟨[], es, rfl, a, ⟨rfl, rfl⟩, h⟩
    · rintro ⟨_, es₂, rfl, _, ⟨rfl, rfl⟩, h⟩
      exact h
  | call op next ih =>
    simp only [bind, replay_call, ih]
    constructor
    · rintro ⟨ans, rest, rfl, es₁, es₂, rfl, a, h₁, h₂⟩
      exact ⟨⟨op, ans⟩ :: es₁, es₂, rfl, a, ⟨ans, es₁, rfl, h₁⟩, h₂⟩
    · rintro ⟨_, es₂, rfl, a, ⟨ans, es₁, rfl, h₁⟩, h₂⟩
      exact ⟨ans, es₁ ++ es₂, rfl, es₁, es₂, rfl, a, h₁, h₂⟩

@[simp] theorem replay_perform {op : Op} {ans : Ans op} :
    replay (perform op) es = some ans ↔ es = [⟨op, ans⟩] := by
  simp [perform, replay_call, and_comm]

/-! ## One call at a time -/

/-- The program that remains after a call with its answer. -/
def advance : Prog Op Ans α → Event Ans → Option (Prog Op Ans α)
  | .ret _, _ => none
  | .call op next, e => if h : e.op = op then some (next (h ▸ e.ans)) else none

/-- The value returned, once there is nothing left to do. -/
def result : Prog Op Ans α → Option α
  | .ret a => some a
  | .call _ _ => none

theorem advance_eq_some {p q : Prog Op Ans α} {e : Event Ans} :
    p.advance e = some q ↔ ∃ next, p = .call e.op next ∧ q = next e.ans := by
  cases p with
  | ret a => simp [advance]
  | call op next =>
    obtain ⟨op', ans⟩ := e
    simp only [advance]
    constructor
    · intro h
      split_ifs at h with e
      subst e
      exact ⟨next, rfl, (Option.some.inj h).symm⟩
    · rintro ⟨next', e, rfl⟩
      cases e
      simp

theorem replay_of_advance {p q : Prog Op Ans α} {e : Event Ans} {es : List (Event Ans)}
    (h : p.advance e = some q) : p.replay (e :: es) = q.replay es := by
  obtain ⟨next, rfl, rfl⟩ := advance_eq_some.mp h
  simp [replay]

end Executions

theorem result_eq_some {p : Prog Op Ans α} {a : α} : p.result = some a ↔ p = .ret a := by
  cases p with
  | ret b => simp [result]
  | call op next => simp [result]

/-! ## Which calls a program makes -/

/-- Whatever the answers are, every call of the program meets `ok`. -/
def Calls (ok : Op → Prop) : Prog Op Ans α → Prop
  | .ret _ => True
  | .call op next => ok op ∧ ∀ ans, Calls ok (next ans)

section Calls

variable {ok : Op → Prop} {p : Prog Op Ans α}

theorem calls_pure (a : α) : Calls ok (pure a : Prog Op Ans α) := trivial

theorem calls_perform {op : Op} (h : ok op) : Calls ok (perform op : Prog Op Ans (Ans op)) :=
  ⟨h, fun _ => trivial⟩

theorem Calls.mono {ok' : Op → Prop} (h : Calls ok p) (weaken : ∀ op, ok op → ok' op) :
    Calls ok' p := by
  induction p with
  | ret a => trivial
  | call op next ih => exact ⟨weaken op h.1, fun ans => ih ans (h.2 ans)⟩

theorem Calls.bind {f : α → Prog Op Ans β} (hp : Calls ok p) (hf : ∀ a, Calls ok (f a)) :
    Calls ok (p >>= f) := by
  change Calls ok (p.bind f)
  induction p with
  | ret a => exact hf a
  | call op next ih => exact ⟨hp.1, fun ans => ih ans (hp.2 ans)⟩

theorem Calls.advance [DecidableEq Op] {q : Prog Op Ans α} {e : Event Ans} (h : Calls ok p)
    (he : p.advance e = some q) : ok e.op ∧ Calls ok q := by
  obtain ⟨next, rfl, rfl⟩ := advance_eq_some.mp he
  exact ⟨h.1, h.2 e.ans⟩

theorem Calls.replay [DecidableEq Op] {es : List (Event Ans)} {a : α} (h : Calls ok p)
    (hes : p.replay es = some a) : ∀ e ∈ es, ok e.op := by
  induction p generalizing es with
  | ret b =>
    rw [(replay_ret.mp hes).1]
    simp
  | call op next ih =>
    obtain ⟨ans, rest, rfl, hrest⟩ := replay_call.mp hes
    rintro e (_ | ⟨_, he⟩)
    · exact h.1
    · exact ih ans (h.2 ans) hrest e he

end Calls

/-! ## Protocols

A protocol says which calls may be made in which phase, and which phase an answer leads to. -/

variable {Φ : Type} {move : Φ → Event Ans → Φ → Prop} {post post' : Φ → α → Prop} {φ : Φ} {a : α}

/-- Whatever the answers are, every call of the program is one that the protocol allows, and the
value it returns meets `post` in the phase it ends in. -/
def Follows (move : Φ → Event Ans → Φ → Prop) (post : Φ → α → Prop) : Φ → Prog Op Ans α → Prop
  | φ, .ret a => post φ a
  | φ, .call op next => ∀ ans, ∃ φ', move φ ⟨op, ans⟩ φ' ∧ Follows move post φ' (next ans)

theorem follows_pure : Follows move post φ (pure a) ↔ post φ a := Iff.rfl

/-- A program whose calls all leave the phase as it is ends in the phase it started in. -/
theorem Calls.follows {ok : Op → Prop} {p : Prog Op Ans α} (h : Calls ok p)
    (stays : ∀ op ans, ok op → move φ ⟨op, ans⟩ φ) : Follows move (fun φ' _ => φ' = φ) φ p := by
  induction p with
  | ret a => rfl
  | call op next ih => exact fun ans => ⟨φ, stays op ans h.1, ih ans (h.2 ans)⟩

theorem Follows.mono {p : Prog Op Ans α} (h : Follows move post φ p)
    (weaken : ∀ φ a, post φ a → post' φ a) : Follows move post' φ p := by
  induction p generalizing φ with
  | ret a => exact weaken φ a h
  | call op next ih =>
    intro ans
    obtain ⟨φ', hmove, hnext⟩ := h ans
    exact ⟨φ', hmove, ih ans hnext⟩

/-- Sequencing: the second program starts in the phase in which the first one ends. -/
theorem Follows.bind {p : Prog Op Ans α} {f : α → Prog Op Ans β} {post : Φ → β → Prop}
    (h : Follows move (fun φ a => Follows move post φ (f a)) φ p) :
    Follows move post φ (p >>= f) := by
  change Follows move post φ (p.bind f)
  induction p generalizing φ with
  | ret a => exact h
  | call op next ih =>
    intro ans
    obtain ⟨φ', hmove, hnext⟩ := h ans
    exact ⟨φ', hmove, ih ans hnext⟩

/-- One call that leaves the phase as it is. -/
theorem follows_perform {op : Op} (h : ∀ ans, move φ ⟨op, ans⟩ φ) :
    Follows move (fun φ' _ => φ' = φ) φ (perform op : Prog Op Ans (Ans op)) :=
  fun ans => ⟨φ, h ans, rfl⟩

/-- After a program that ends in the phase it started in the rest starts in the same phase. -/
theorem Follows.andThen {p : Prog Op Ans α} {f : α → Prog Op Ans β} {post : Φ → β → Prop}
    (hp : Follows move (fun φ' _ => φ' = φ) φ p) (hf : ∀ a, Follows move post φ (f a)) :
    Follows move post φ (p >>= f) := by
  refine Follows.bind (hp.mono ?_)
  rintro _ a rfl
  exact hf a

theorem Follows.advance [DecidableEq Op] {p q : Prog Op Ans α} {e : Event Ans}
    (h : Follows move post φ p) (he : p.advance e = some q) :
    ∃ φ', move φ e φ' ∧ Follows move post φ' q := by
  obtain ⟨next, rfl, rfl⟩ := advance_eq_some.mp he
  exact h e.ans

/-- In a phase that allows no call the program has returned. -/
theorem Follows.returned [∀ op, Nonempty (Ans op)] {p : Prog Op Ans α}
    (h : Follows move post φ p) (final : ∀ e φ', ¬ move φ e φ') : ∃ a, p = .ret a ∧ post φ a := by
  cases p with
  | ret a => exact ⟨a, rfl, h⟩
  | call op next =>
    obtain ⟨ans⟩ := ‹∀ op, Nonempty (Ans op)› op
    obtain ⟨φ', hmove, -⟩ := h ans
    exact absurd hmove (final _ φ')

/-- The calls that the protocol allows from here on are all the calls that the program makes. -/
theorem Follows.calls [∀ op, Nonempty (Ans op)] {p : Prog Op Ans α} {ok : Op → Prop}
    (inv : Φ → Prop) (allowed : ∀ φ e φ', inv φ → move φ e φ' → ok e.op ∧ inv φ')
    (h : Follows move post φ p) (hφ : inv φ) : Calls ok p := by
  induction p generalizing φ with
  | ret a => trivial
  | call op next ih =>
    refine ⟨?_, fun ans => ?_⟩
    · obtain ⟨ans⟩ := ‹∀ op, Nonempty (Ans op)› op
      obtain ⟨φ', hmove, -⟩ := h ans
      exact (allowed φ _ φ' hφ hmove).1
    · obtain ⟨φ', hmove, hnext⟩ := h ans
      exact ih ans hnext (allowed φ _ φ' hφ hmove).2

end Prog

end Daedalus.Foundation
