import Daedalus.Foundation.Run

/-!
# Messages on lease

A queue gives a message out to a worker, for a limited time. The worker may die, or it returns a
result and reports it; the report may get lost. A report that is heard removes the message or gives
it back. A message is given out again when it was given back or when the time has passed, and not
more than `limit` times. So several workers may have the same message at once, and also the report
of one whose time has passed counts.

`remove n r` says whether the result `r` of the `n`th attempt removes the message.
-/
namespace Daedalus.Foundation.Lease

variable {R : Type}

inductive Attempt (R : Type) where
  | running
  | died
  | returned (r : R) (heard : Bool)
  deriving DecidableEq

/-- The queue has not heard of the attempt. -/
def Attempt.unheard : Attempt R → Bool
  | .returned _ heard => !heard
  | _ => true

def Attempt.isRunning : Attempt R → Bool
  | .running => true
  | _ => false

instance : (a : Option (Attempt R)) → Decidable (a = some .running)
  | some .running => isTrue rfl
  | none | some .died | some (.returned _ _) => isFalse (by simp)

structure Message (R : Type) where
  attempts : List (Attempt R)
  /-- The message waits to be given out. -/
  due : Bool
  /-- The attempt that removed the message. -/
  removedBy : Option ℕ
  deriving DecidableEq

def Message.new : Message R := ⟨[], true, none⟩

inductive Act (R : Type) where
  /-- The message is given out. -/
  | deliver
  /-- The time of the latest attempt has passed. -/
  | expire
  | die (i : ℕ)
  | finish (i : ℕ) (r : R) (heard : Bool)

/-- The attempt that ends. -/
def Act.ends : Act R → Option ℕ
  | .die i | .finish i _ _ => some i
  | _ => none

def Message.setAttempt (m : Message R) (i : ℕ) (a : Attempt R) : Message R :=
  { m with attempts := m.attempts.set i a }

variable (limit : ℕ) (remove : ℕ → R → Bool)

/-- The queue hears of the result of an attempt. -/
def Message.hear (m : Message R) (i : ℕ) (r : R) : Message R :=
  if m.removedBy.isSome then m
  else if remove (i + 1) r then { m with removedBy := some i }
  else { m with due := true }

def step (m : Message R) : Act R → Option (Message R)
  | .deliver =>
    if m.due ∧ m.removedBy = none ∧ m.attempts.length < limit then
      some { m with attempts := m.attempts ++ [.running], due := false }
    else none
  | .expire =>
    if m.removedBy = none ∧ m.attempts.length ≠ 0 then some { m with due := true } else none
  | .die i =>
    match m.attempts[i]? with
    | some .running => some (m.setAttempt i .died)
    | _ => none
  | .finish i r heard =>
    match m.attempts[i]? with
    | some .running =>
      let returned := m.setAttempt i (.returned r heard)
      some (if heard then returned.hear remove i r else returned)
    | _ => none

section Steps

variable {limit remove} {m m' : Message R} {a : Act R}

/-- What a step can do: the message is given out, becomes due, or an attempt ends, heard of or
not. -/
theorem step_cases (h : step limit remove m a = some m') :
    (a = .deliver ∧ m.due ∧ m.removedBy = none ∧ m.attempts.length < limit ∧
      m' = { m with attempts := m.attempts ++ [.running], due := false }) ∨
    (a = .expire ∧ m.removedBy = none ∧ m.attempts.length ≠ 0 ∧ m' = { m with due := true }) ∨
    (∃ i b, a.ends = some i ∧ m.attempts[i]? = some .running ∧ b ≠ .running ∧ b.unheard ∧
      m' = m.setAttempt i b) ∨
    ∃ i r, a.ends = some i ∧ m.attempts[i]? = some .running ∧
      m' = (m.setAttempt i (.returned r true)).hear remove i r := by
  cases a with
  | deliver =>
    simp only [step] at h
    split_ifs at h with ready
    cases h
    exact .inl ⟨rfl, ready.1, ready.2.1, ready.2.2, rfl⟩
  | expire =>
    simp only [step] at h
    split_ifs at h with pending
    cases h
    exact .inr (.inl ⟨rfl, pending.1, pending.2, rfl⟩)
  | die i =>
    simp only [step] at h
    split at h
    · cases h
      exact .inr (.inr (.inl ⟨i, .died, rfl, ‹_›, by simp, rfl, rfl⟩))
    · cases h
  | finish i r heard =>
    simp only [step] at h
    split at h
    · cases h
      cases heard with
      | true => exact .inr (.inr (.inr ⟨i, r, rfl, ‹_›, rfl⟩))
      | false => exact .inr (.inr (.inl ⟨i, .returned r false, rfl, ‹_›, by simp, rfl, rfl⟩))
    · cases h

@[simp] theorem Message.attempts_hear (m : Message R) (i : ℕ) (r : R) :
    (m.hear remove i r).attempts = m.attempts := by
  unfold Message.hear
  split_ifs <;> rfl

/-- A step begins an attempt, or ends one, or leaves them alone. -/
theorem attempts_of_step (h : step limit remove m a = some m') :
    (a = .deliver ∧ m'.attempts = m.attempts ++ [.running]) ∨
    (a = .expire ∧ m'.attempts = m.attempts) ∨
    ∃ i b, a.ends = some i ∧ m'.attempts = m.attempts.set i b := by
  obtain ⟨rfl, -, -, -, rfl⟩ | ⟨rfl, -, -, rfl⟩ | ⟨i, b, ends, -, -, -, rfl⟩ |
    ⟨i, r, ends, -, rfl⟩ := step_cases h
  · exact .inl ⟨rfl, rfl⟩
  · exact .inr (.inl ⟨rfl, rfl⟩)
  · exact .inr (.inr ⟨i, b, ends, rfl⟩)
  · exact .inr (.inr ⟨i, _, ends, m.setAttempt i _ |>.attempts_hear i r⟩)

/-- A result comes from the worker that returned it. -/
theorem returned_of_step {r : R} {heard : Bool} (h : step limit remove m a = some m')
    (hmem : .returned r heard ∈ m'.attempts) :
    .returned r heard ∈ m.attempts ∨ ∃ i, a = .finish i r heard := by
  cases a with
  | deliver =>
    simp only [step] at h
    split_ifs at h
    cases h
    simpa using hmem
  | expire =>
    simp only [step] at h
    split_ifs at h
    cases h
    exact .inl hmem
  | die i =>
    simp only [step] at h
    split at h
    · cases h
      rcases List.mem_or_eq_of_mem_set hmem with old | new
      · exact .inl old
      · cases new
    · cases h
  | finish i r' heard' =>
    simp only [step] at h
    split at h
    · cases h
      have returned : .returned r heard ∈ (m.setAttempt i (.returned r' heard')).attempts := by
        cases heard' <;> simpa using hmem
      rcases List.mem_or_eq_of_mem_set returned with old | new
      · exact .inl old
      · cases new
        exact .inr ⟨i, rfl⟩
    · cases h

/-- The books of a message: what removed it, and what it waits for if it is not due. -/
structure Inv (limit : ℕ) (remove : ℕ → R → Bool) (m : Message R) : Prop where
  bounded : m.attempts.length ≤ limit
  removed : ∀ i, m.removedBy = some i →
    ∃ r, m.attempts[i]? = some (.returned r true) ∧ remove (i + 1) r
  heard : ∀ i r, m.attempts[i]? = some (.returned r true) → remove (i + 1) r →
    m.removedBy.isSome
  waiting : m.removedBy = none → m.due = false → m.attempts.length ≠ 0

theorem Inv.new : Inv limit remove .new where
  bounded := Nat.zero_le _
  removed := by simp [Message.new]
  heard := by simp [Message.new]
  waiting := by simp [Message.new]

theorem Message.attempts_setAttempt {i : ℕ} (running : m.attempts[i]? = some .running)
    (b : Attempt R) (j : ℕ) :
    (m.setAttempt i b).attempts[j]? = if j = i then some b else m.attempts[j]? := by
  obtain ⟨hlt, -⟩ := List.getElem?_eq_some_iff.mp running
  by_cases hji : j = i
  · simp [Message.setAttempt, hji, hlt]
  · simp [Message.setAttempt, hji, Ne.symm hji]

theorem Message.length_setAttempt (i : ℕ) (b : Attempt R) :
    (m.setAttempt i b).attempts.length = m.attempts.length := by
  simp [Message.setAttempt]

/-- The attempt that removed the message is not one that is still running. -/
theorem Inv.removed_setAttempt {i : ℕ} {b : Attempt R} (h : Inv limit remove m)
    (running : m.attempts[i]? = some .running) (j : ℕ) (hj : m.removedBy = some j) :
    ∃ r, (m.setAttempt i b).attempts[j]? = some (.returned r true) ∧ remove (j + 1) r := by
  obtain ⟨r, hr, removes⟩ := h.removed j hj
  have hji : j ≠ i := by
    rintro rfl
    simp [running] at hr
  exact ⟨r, by rw [Message.attempts_setAttempt running, if_neg hji, hr], removes⟩

/-- An attempt that ends unheard of changes nothing in the books. -/
theorem Inv.setAttempt {i : ℕ} {b : Attempt R} (h : Inv limit remove m)
    (running : m.attempts[i]? = some .running) (unheard : b.unheard) :
    Inv limit remove (m.setAttempt i b) := by
  refine ⟨?_, h.removed_setAttempt running, ?_, ?_⟩
  · rw [Message.length_setAttempt]
    exact h.bounded
  · intro j r hr removes
    rw [Message.attempts_setAttempt running] at hr
    split_ifs at hr
    · cases hr
      cases unheard
    · exact h.heard j r hr removes
  · rw [Message.length_setAttempt]
    exact h.waiting

theorem Inv.hear {i : ℕ} {r : R} (h : Inv limit remove m)
    (running : m.attempts[i]? = some .running) :
    Inv limit remove ((m.setAttempt i (.returned r true)).hear remove i r) := by
  have bounded : (m.setAttempt i (.returned r true)).attempts.length ≤ limit := by
    rw [Message.length_setAttempt]
    exact h.bounded
  have begun : (m.setAttempt i (.returned r true)).attempts.length ≠ 0 := by
    obtain ⟨hlt, -⟩ := List.getElem?_eq_some_iff.mp running
    rw [Message.length_setAttempt]
    omega
  unfold Message.hear
  split_ifs with gone removes
  · exact ⟨bounded, h.removed_setAttempt running, fun _ _ _ _ => gone, fun _ _ => begun⟩
  · refine ⟨bounded, ?_, fun _ _ _ _ => rfl, fun _ _ => begun⟩
    rintro j ⟨⟩
    exact ⟨r, by rw [Message.attempts_setAttempt running, if_pos rfl], removes⟩
  · refine ⟨bounded, h.removed_setAttempt running, ?_, fun _ _ => begun⟩
    intro j r' hr' removes'
    rw [Message.attempts_setAttempt running] at hr'
    split_ifs at hr' with hji
    · cases hr'
      exact absurd (hji ▸ removes') removes
    · exact h.heard j r' hr' removes'

theorem Inv.deliver (h : Inv limit remove m) (open_ : m.removedBy = none)
    (room : m.attempts.length < limit) :
    Inv limit remove { m with attempts := m.attempts ++ [.running], due := false } := by
  refine ⟨by simpa using room, ?_, ?_, by simp⟩
  · intro i hi
    rw [open_] at hi
    cases hi
  · intro i r hr removes
    rcases getElem?_snoc.mp hr with old | ⟨-, new⟩
    · exact h.heard i r old removes
    · cases new

theorem Inv.step (h : Inv limit remove m) (hs : step limit remove m a = some m') :
    Inv limit remove m' := by
  obtain ⟨-, -, open_, room, rfl⟩ | ⟨-, open_, begun, rfl⟩ | ⟨i, b, -, running, -, unheard, rfl⟩ |
    ⟨i, r, -, running, rfl⟩ := step_cases hs
  · exact h.deliver open_ room
  · exact ⟨h.bounded, h.removed, h.heard, fun _ _ => begun⟩
  · exact h.setAttempt running unheard
  · exact h.hear running

/-- Where the last attempt that is possible removes the message whatever its result, a message that
is neither removed nor given out any more is one that the queue has not heard of in the last
attempt. -/
theorem Inv.exhausted (h : Inv limit remove m) (final : ∀ r, remove limit r)
    (open_ : m.removedBy = none) (full : ¬ m.attempts.length < limit) (begun : 0 < limit) :
    ∃ b, m.attempts[limit - 1]? = some b ∧ b.unheard := by
  have length : m.attempts.length = limit := le_antisymm h.bounded (not_lt.mp full)
  have last : limit - 1 < m.attempts.length := by omega
  obtain ⟨b, hb⟩ : ∃ b, m.attempts[limit - 1]? = some b := ⟨_, List.getElem?_eq_getElem last⟩
  refine ⟨b, hb, ?_⟩
  cases b with
  | running | died => rfl
  | returned r heard =>
    cases heard with
    | false => rfl
    | true =>
      have removes : remove (limit - 1 + 1) r := by
        rw [Nat.sub_add_cancel begun]
        exact final r
      have gone := h.heard (limit - 1) r hb removes
      simp [open_] at gone

/-! ## One attempt at a time -/

/-- The time of an attempt passes only after it has ended. -/
def Patient (m : Message R) : Act R → Prop
  | .expire => Attempt.running ∉ m.attempts
  | _ => True

instance (m : Message R) : Decidable (Attempt.running ∈ m.attempts) :=
  decidable_of_iff (∃ a ∈ m.attempts, a.isRunning) <| by
    constructor
    · rintro ⟨a, ha, running⟩
      cases a with
      | running => exact ha
      | died | returned => cases running
    · exact fun ha => ⟨_, ha, rfl⟩

instance (m : Message R) (a : Act R) : Decidable (Patient m a) :=
  match a with
  | .expire => inferInstanceAs (Decidable (Attempt.running ∉ m.attempts))
  | .deliver | .die _ | .finish _ _ _ => isTrue trivial

/-- Only the latest attempt may be running, and none while the message is due. -/
structure Sequential (m : Message R) : Prop where
  latest : ∀ i, m.attempts[i]? = some .running → i + 1 = m.attempts.length
  idle : m.due → m.removedBy = none → Attempt.running ∉ m.attempts

theorem Sequential.new : Sequential (.new : Message R) where
  latest := by simp [Message.new]
  idle := by simp [Message.new]

/-- An attempt that ends leaves none running. -/
theorem Sequential.ended {i : ℕ} {b : Attempt R} (h : Sequential m)
    (running : m.attempts[i]? = some .running) (ended : b ≠ .running) :
    Attempt.running ∉ (m.setAttempt i b).attempts := by
  intro hmem
  obtain ⟨j, hj⟩ := List.mem_iff_getElem?.mp hmem
  rw [Message.attempts_setAttempt running] at hj
  split_ifs at hj with hji
  · exact ended (Option.some.inj hj)
  · have first := h.latest i running
    have second := h.latest j hj
    omega

theorem Sequential.of_idle (idle : Attempt.running ∉ m.attempts) : Sequential m where
  latest _ hi := absurd (List.mem_of_getElem? hi) idle
  idle _ _ := idle

theorem Sequential.step (h : Sequential m) (patient : Patient m a)
    (hs : step limit remove m a = some m') : Sequential m' := by
  obtain ⟨-, due, open_, -, rfl⟩ | ⟨rfl, -, -, rfl⟩ | ⟨i, b, -, running, ended, -, rfl⟩ |
    ⟨i, r, -, running, rfl⟩ := step_cases hs
  · refine ⟨?_, by simp⟩
    intro i hi
    rcases getElem?_snoc.mp hi with old | ⟨rfl, -⟩
    · exact absurd (List.mem_of_getElem? old) (h.idle due open_)
    · simp
  · exact .of_idle patient
  · exact .of_idle (h.ended running ended)
  · have idle := h.ended running (b := .returned r true) (by simp)
    unfold Message.hear
    split_ifs <;> exact .of_idle idle

end Steps

end Daedalus.Foundation.Lease
