import Mathlib

/-!
# Shared sets, maps and counters

Many parties share a set, to which each contributes at most one element at a time, or a map with at
most one entry of each, and a counter of those that take part. What one party does to its own
contribution is what has to be done to the set or the map, as long as no two parties contribute the
same element or key.
-/
namespace Daedalus.Foundation

variable {κ ι : Type*}

/-- The set consists of what the parties contribute. -/
def SharedBy (A : Finset ι) (g : κ → Option ι) : Prop := ∀ x, x ∈ A ↔ ∃ c, g c = some x

section SharedBy

variable [DecidableEq κ] [DecidableEq ι] {A : Finset ι} {g : κ → Option ι} {c : κ} {x : ι}

theorem SharedBy.insert (h : SharedBy A g) (hc : g c = none) :
    SharedBy (insert x A) (Function.update g c (some x)) := by
  intro y
  rw [Finset.mem_insert, h y]
  constructor
  · rintro (rfl | ⟨d, hd⟩)
    · exact ⟨c, by simp⟩
    · have hdc : d ≠ c := by
        rintro rfl
        simp [hc] at hd
      exact ⟨d, by simp [hdc, hd]⟩
  · rintro ⟨d, hd⟩
    by_cases hdc : d = c
    · left
      simpa [hdc, eq_comm] using hd
    · exact .inr ⟨d, by simpa [hdc] using hd⟩

theorem SharedBy.erase (h : SharedBy A g) (hc : g c = some x) (alone : ∀ d, g d = some x → d = c) :
    SharedBy (A.erase x) (Function.update g c none) := by
  intro y
  rw [Finset.mem_erase, h y]
  constructor
  · rintro ⟨hne, d, hd⟩
    have hdc : d ≠ c := by
      rintro rfl
      exact hne (Option.some.inj (hd.symm.trans hc))
    exact ⟨d, by simp [hdc, hd]⟩
  · rintro ⟨d, hd⟩
    have hdc : d ≠ c := by
      rintro rfl
      simp at hd
    have hd : g d = some y := by simpa [hdc] using hd
    refine ⟨?_, d, hd⟩
    rintro rfl
    exact hdc (alone d hd)

end SharedBy

/-- The map consists of the entries that the parties contribute. -/
def HeldBy {β : Type*} (load : ι → Option β) (g : κ → Option (ι × β)) : Prop :=
  ∀ x b, load x = some b ↔ ∃ c, g c = some (x, b)

/-- A party writes the key that nobody else has an entry for. -/
theorem HeldBy.write [DecidableEq κ] [DecidableEq ι] {β : Type*} {load : ι → Option β}
    {g : κ → Option (ι × β)} {c : κ} {x : ι} (h : HeldBy load g) (own : ∀ e ∈ g c, e.1 = x)
    (alone : ∀ d, ∀ e ∈ g d, e.1 = x → d = c) (value : Option β) :
    HeldBy (Function.update load x value) (Function.update g c (value.map (x, ·))) := by
  intro y b
  by_cases hy : y = x
  · subst hy
    rw [Function.update_self]
    constructor
    · rintro rfl
      exact ⟨c, by simp⟩
    · rintro ⟨d, hd⟩
      by_cases hdc : d = c
      · simpa [hdc] using hd
      · exact absurd (alone d (y, b) (by simpa [hdc] using hd) rfl) hdc
  · rw [Function.update_of_ne hy, h y b]
    constructor
    · rintro ⟨d, hd⟩
      have hdc : d ≠ c := by
        rintro rfl
        exact hy (own _ hd)
      exact ⟨d, by rwa [Function.update_of_ne hdc]⟩
    · rintro ⟨d, hd⟩
      have hdc : d ≠ c := by
        rintro rfl
        rw [Function.update_self, Option.map_eq_some_iff] at hd
        obtain ⟨_, -, e⟩ := hd
        exact hy (Prod.mk.inj e).1.symm
      exact ⟨d, by rwa [Function.update_of_ne hdc] at hd⟩

/-- How many of the first `n` parties take part. -/
def population (p : ℕ → Bool) (n : ℕ) : ℕ := ((Finset.range n).filter fun c => p c).card

section Population

variable {p : ℕ → Bool} {n c : ℕ}

theorem population_join (hc : c < n) (out : p c = false) :
    population (Function.update p c true) n = population p n + 1 := by
  have split : (Finset.range n).filter (fun d => Function.update p c true d) =
      insert c ((Finset.range n).filter fun d => p d) := by
    ext d
    by_cases hdc : d = c <;> simp [hdc, hc]
  rw [population, split, Finset.card_insert_of_notMem (by simp [out])]
  rfl

theorem population_leave (hc : c < n) (inside : p c = true) :
    population (Function.update p c false) n + 1 = population p n := by
  have back : Function.update (Function.update p c false) c true = p := by
    rw [Function.update_idem, ← inside, Function.update_eq_self]
  rw [← population_join hc (by simp), back]

theorem population_succ (out : p n = false) : population p (n + 1) = population p n := by
  simp [population, Finset.range_add_one, Finset.filter_insert, out]

/-- An empty population has no member. -/
theorem eq_false_of_population (h : population p n = 0) (hc : c < n) : p c = false := by
  have empty := Finset.filter_eq_empty_iff.mp (Finset.card_eq_zero.mp h)
  simpa using empty (Finset.mem_range.mpr hc)

/-- A population that is not empty has a member. -/
theorem exists_of_population (h : population p n ≠ 0) : ∃ c < n, p c = true := by
  obtain ⟨c, hc⟩ := Finset.card_ne_zero.mp h
  obtain ⟨hlt, hp⟩ := Finset.mem_filter.mp hc
  exact ⟨c, Finset.mem_range.mp hlt, hp⟩

end Population

end Daedalus.Foundation
