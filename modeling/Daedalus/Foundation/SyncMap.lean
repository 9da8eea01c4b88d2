import Mathlib

/-!
# Concurrent maps

A concurrent map is a list of entries with at most one entry a key. Its operations are atomic,
except for the iteration: `Range` visits the entries one after another while others store and
delete. It promises little. No key is visited twice, what is visited for a key is a value that the
key had at some point of the iteration, and a key that is present all the time is visited.
-/
namespace Daedalus.Foundation

variable {K V : Type*}

abbrev Table (K V : Type*) := List (K × V)

namespace Table

variable [DecidableEq K] {m : Table K V} {k k' : K} {v v' : V}

def load (m : Table K V) (k : K) : Option V := m.lookup k

def delete (m : Table K V) (k : K) : Table K V := m.filter (·.1 ≠ k)

def store (m : Table K V) (k : K) (v : V) : Table K V := (k, v) :: m.delete k

theorem mem_of_load (h : m.load k = some v) : (k, v) ∈ m := by
  obtain ⟨before, after, rfl, -⟩ := List.lookup_eq_some_iff.mp h
  simp

@[simp] theorem mem_delete : (k', v') ∈ m.delete k ↔ (k', v') ∈ m ∧ k' ≠ k := by
  simp [delete]

@[simp] theorem mem_store :
    (k', v') ∈ m.store k v ↔ (k' = k ∧ v' = v) ∨ ((k', v') ∈ m ∧ k' ≠ k) := by
  simp [store]

theorem load_delete (m : Table K V) (k k' : K) :
    (m.delete k).load k' = if k' = k then none else m.load k' := by
  induction m with
  | nil => simp [load, delete]
  | cons e m ih =>
    by_cases he : e.1 = k <;> by_cases hk : k' = e.1 <;>
      grind [load, delete]

theorem load_store (m : Table K V) (k k' : K) (v : V) :
    (m.store k v).load k' = if k' = k then some v else m.load k' := by
  by_cases hk : k' = k
  · simp [load, store, hk]
  · have hne : (k' == k) = false := by simpa using hk
    simpa [load, store, List.lookup_cons, hne, hk] using load_delete m k k'

/-- Every key has at most one entry. -/
def Keyed (m : Table K V) : Prop := (m.map (·.1)).Nodup

theorem Keyed.delete (h : m.Keyed) (k : K) : (m.delete k).Keyed := by
  unfold Table.delete Keyed
  exact h.sublist (List.filter_sublist.map _)

theorem Keyed.store (h : m.Keyed) (k : K) (v : V) : (m.store k v).Keyed := by
  refine List.nodup_cons.mpr ⟨?_, h.delete k⟩
  simp [Table.delete]

theorem Keyed.load_iff (h : m.Keyed) : m.load k = some v ↔ (k, v) ∈ m := by
  refine ⟨mem_of_load, fun hmem => ?_⟩
  induction m with
  | nil => cases hmem
  | cons e m ih =>
    obtain ⟨k₀, v₀⟩ := e
    obtain ⟨fresh, h⟩ := List.nodup_cons.mp h
    rcases List.mem_cons.mp hmem with e | hlater
    · cases e
      simp [load]
    · have hne : (k == k₀) = false := by
        refine beq_eq_false_iff_ne.mpr ?_
        rintro rfl
        exact fresh (List.mem_map.mpr ⟨_, hlater, rfl⟩)
      rw [load, List.lookup_cons, hne]
      exact ih h hlater

theorem mem_keys_iff : k ∈ m.map (·.1) ↔ (m.load k).isSome := by
  simp [load]

end Table

/-- An iteration in progress: the entries the map had since it began, the keys that were present
all along, and the keys visited so far. -/
structure Iteration (K V : Type*) where
  seen : List (K × V)
  owed : List K
  visited : List K
  deriving DecidableEq

namespace Iteration

variable {it it' : Iteration K V} {m : Table K V} {k k' : K} {v v' : V}

def start (m : Table K V) : Iteration K V := ⟨m, m.map (·.1), []⟩

/-- Another party stores an entry. -/
def noteStore (it : Iteration K V) (k : K) (v : V) : Iteration K V :=
  { it with seen := (k, v) :: it.seen }

/-- The entry may still be visited. -/
def Ahead (it : Iteration K V) (k : K) (v : V) : Prop := (k, v) ∈ it.seen ∧ k ∉ it.visited

@[simp] theorem ahead_start : (start m).Ahead k v ↔ (k, v) ∈ m := by
  simp [start, Ahead]

theorem Ahead.of_noteStore (h : (it.noteStore k' v').Ahead k v) :
    (k = k' ∧ v = v') ∨ it.Ahead k v := by
  obtain ⟨hseen, hnew⟩ := h
  rcases List.mem_cons.mp hseen with e | hold
  · exact .inl (Prod.mk.inj e)
  · exact .inr ⟨hold, hnew⟩

variable [DecidableEq K]

/-- Another party deletes a key. -/
def noteDelete (it : Iteration K V) (k : K) : Iteration K V :=
  { it with owed := it.owed.filter (· ≠ k) }

/-- The iteration may end. -/
def finished (it : Iteration K V) : Bool := it.owed.all (· ∈ it.visited)

def visit [DecidableEq V] (it : Iteration K V) (k : K) (v : V) : Option (Iteration K V) :=
  if (k, v) ∈ it.seen ∧ k ∉ it.visited then some { it with visited := k :: it.visited } else none

/-- A visit is of an entry that is still ahead, and leaves no entry of its key ahead. -/
theorem visit_ahead [DecidableEq V] (h : it.visit k' v' = some it') : it.Ahead k' v' ∧
    ∀ k v, it'.Ahead k v → it.Ahead k v ∧ k ≠ k' := by
  unfold visit at h
  split_ifs at h with ahead
  cases h
  refine ⟨ahead, fun k v ⟨hseen, hnew⟩ => ?_⟩
  simp only [List.mem_cons, not_or] at hnew
  exact ⟨⟨hseen, hnew.2⟩, hnew.1⟩

theorem visit_eq [DecidableEq V] (h : it.visit k v = some it') :
    it' = { it with visited := k :: it.visited } := by
  unfold visit at h
  split_ifs at h
  exact (Option.some.inj h).symm

/-- An iteration that has ended has visited every key that was present all along. -/
theorem visited_of_finished (h : it.finished) (hk : k ∈ it.owed) : k ∈ it.visited := by
  simpa using List.all_eq_true.mp h k hk

end Iteration

end Daedalus.Foundation
