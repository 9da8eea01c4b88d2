import Mathlib

/-!
# Replicas fed by updates

A replica of a keyed store is fed by updates, each of which concerns one key and changes the value
of that key only. A feed may carry the whole history of a key or only its last update: what it makes
of a key depends on the updates of that key alone.
-/
namespace Daedalus.Foundation

variable {K V U : Type*} [DecidableEq K]

/-- How updates act: which key they concern, and what becomes of its value. -/
structure Feed (K V U : Type*) where
  key : U → K
  effect : U → Option V → Option V

namespace Feed

variable (F : Feed K V U) {m : K → Option V} {us vs : List U} {u : U} {k : K}

def apply (m : K → Option V) (u : U) : K → Option V :=
  Function.update m (F.key u) (F.effect u (m (F.key u)))

/-- The replica after a list of updates. -/
def replay (m : K → Option V) (us : List U) : K → Option V := us.foldl F.apply m

theorem apply_of_ne (h : F.key u ≠ k) : F.apply m u k = m k := by
  simp [apply, Ne.symm h]

theorem replay_snoc : F.replay m (us ++ [u]) = F.apply (F.replay m us) u := by
  simp [replay]

/-- Updates of other keys leave a key alone. -/
theorem replay_of_forall_ne (h : ∀ u ∈ us, F.key u ≠ k) : F.replay m us k = m k := by
  induction us generalizing m with
  | nil => rfl
  | cons u us ih =>
    rw [replay, List.foldl_cons, ← replay, ih fun v hv => h v (List.mem_cons_of_mem u hv)]
    exact F.apply_of_ne (h u List.mem_cons_self)

/-- Where every key occurs at most once, a key gets the effect of its one update. -/
theorem replay_of_mem (nodup : (us.map F.key).Nodup) (h : u ∈ us) :
    F.replay m us (F.key u) = F.effect u (m (F.key u)) := by
  induction us generalizing m with
  | nil => cases h
  | cons v us ih =>
    obtain ⟨fresh, nodup⟩ := List.nodup_cons.mp nodup
    rw [replay, List.foldl_cons, ← replay]
    have others : ∀ w ∈ us, F.key w ≠ F.key v := fun w hw e =>
      fresh (e ▸ List.mem_map_of_mem hw)
    rcases List.mem_cons.mp h with rfl | h
    · rw [F.replay_of_forall_ne others]
      simp [apply]
    · rw [ih nodup h, F.apply_of_ne (others u h).symm]

end Feed

end Daedalus.Foundation
