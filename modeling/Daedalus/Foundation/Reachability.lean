import Mathlib

/-!
# Reachability in finite directed graphs

Acyclic relations, one edge at a time, the explicit-stack search that decides whether a path
exists, and the length of the longest chain that ends in an element. The search is stated for an
arbitrary successor function: `next a` lists the successors of `a`, and `b` is a successor of `a`
when `b ∈ next a`.
-/
namespace Daedalus.Foundation

open Relation

variable {α : Type*} {r : α → α → Prop}

/-- No element is reachable from itself in one or more steps. -/
def Acyclic (r : α → α → Prop) : Prop := ∀ a, ¬ TransGen r a a

/-- A path in the graph with the extra edge `u → v` either avoids the edge, or splits at its
first and last use. -/
theorem transGen_insert {u v x y : α}
    (h : TransGen (fun a b => r a b ∨ (a = u ∧ b = v)) x y) :
    TransGen r x y ∨ (ReflTransGen r x u ∧ ReflTransGen r v y) := by
  induction h with
  | single h =>
    rcases h with h | ⟨rfl, rfl⟩
    · exact Or.inl (.single h)
    · exact Or.inr ⟨.refl, .refl⟩
  | tail _ h ih =>
    rcases h with h | ⟨rfl, rfl⟩
    · rcases ih with ih | ⟨hx, hy⟩
      · exact Or.inl (ih.tail h)
      · exact Or.inr ⟨hx, hy.tail h⟩
    · rcases ih with ih | ⟨hx, _⟩
      · exact Or.inr ⟨ih.to_reflTransGen, .refl⟩
      · exact Or.inr ⟨hx, .refl⟩

/-- An edge `u → v` closes no cycle when `u` is not reachable from `v`. -/
theorem Acyclic.insert {u v : α} (h : Acyclic r) (hvu : ¬ ReflTransGen r v u) :
    Acyclic (fun a b => r a b ∨ (a = u ∧ b = v)) := by
  intro a ha
  rcases transGen_insert ha with ha | ⟨hau, hva⟩
  · exact h a ha
  · exact hvu (hva.trans hau)

/-- An acyclic relation whose sources form a finite set is well founded. -/
theorem Acyclic.wellFounded (h : Acyclic r) {s : Set α} (fin : s.Finite)
    (source : ∀ a b, r a b → a ∈ s) : WellFounded r := by
  have : IsTrans α (TransGen r) := ⟨fun _ _ _ => TransGen.trans⟩
  have : Std.Irrefl (TransGen r) := ⟨h⟩
  have : IsStrictOrder α (TransGen r) := {}
  have on : s.WellFoundedOn (TransGen r) := fin.wellFoundedOn
  rw [Set.wellFoundedOn_iff] at on
  -- From the second step down a descending chain stays inside `s`.
  have acc : ∀ a ∈ s, Acc r a := by
    intro a
    induction a using on.induction with
    | _ a ih =>
      intro ha
      exact ⟨a, fun b hb => ih b ⟨.single hb, source b a hb, ha⟩ (source b a hb)⟩
  exact ⟨fun a => ⟨a, fun b hb => acc b (source b a hb)⟩⟩

section Search

variable [DecidableEq α] (next : α → List α) (target : α)

/-- Depth-first search with an explicit stack, its top at the head. A popped element that was
visited before is dropped; otherwise its successors are compared with the target and pushed.
The result is `none` when the fuel runs out. -/
def search : ℕ → List α → List α → Option Bool
  | _, _, [] => some false
  | 0, _, _ :: _ => none
  | fuel + 1, visited, curr :: stack =>
    if curr ∈ visited then search fuel visited stack
    else if target ∈ next curr then some true
    else search fuel (curr :: visited) ((next curr).reverse ++ stack)

variable {next target} {fuel : ℕ} {visited stack : List α}

/-- A positive answer comes with a path from the stack. -/
theorem search_true (h : search next target fuel visited stack = some true) :
    ∃ a ∈ stack, TransGen (fun a b => b ∈ next a) a target := by
  fun_induction search next target fuel visited stack with
  | case1 => simp at h
  | case2 => simp at h
  | case3 fuel visited curr stack _ ih =>
    obtain ⟨a, ha, path⟩ := ih h
    exact ⟨a, List.mem_cons_of_mem _ ha, path⟩
  | case4 fuel visited curr stack _ found =>
    exact ⟨curr, List.mem_cons_self, .single found⟩
  | case5 fuel visited curr stack _ _ ih =>
    obtain ⟨a, ha, path⟩ := ih h
    rcases List.mem_append.mp ha with ha | ha
    · exact ⟨curr, List.mem_cons_self, .head (List.mem_reverse.mp ha) path⟩
    · exact ⟨a, List.mem_cons_of_mem _ ha, path⟩

/-- A negative answer comes with a set that contains the stack and the visited elements, is
closed under successors and misses the target, provided this held so far. -/
theorem search_false (h : search next target fuel visited stack = some false)
    (closed : ∀ a ∈ visited, ∀ b ∈ next a, b ∈ visited ∨ b ∈ stack)
    (hv : target ∉ visited) (hs : target ∉ stack) :
    ∃ seen : List α, (∀ a ∈ visited, a ∈ seen) ∧ (∀ a ∈ stack, a ∈ seen) ∧
      (∀ a ∈ seen, ∀ b ∈ next a, b ∈ seen) ∧ target ∉ seen := by
  fun_induction search next target fuel visited stack with
  | case1 _ visited =>
    exact ⟨visited, fun _ ha => ha, by simp, by simpa using closed, hv⟩
  | case2 => simp at h
  | case3 fuel visited curr stack old ih =>
    obtain ⟨seen, h₁, h₂, h₃, h₄⟩ := ih h
      (by
        intro a ha b hb
        rcases closed a ha b hb with hb | hb
        · exact Or.inl hb
        · rcases List.mem_cons.mp hb with rfl | hb
          · exact Or.inl old
          · exact Or.inr hb)
      hv (fun ht => hs (List.mem_cons_of_mem _ ht))
    refine ⟨seen, h₁, ?_, h₃, h₄⟩
    intro a ha
    rcases List.mem_cons.mp ha with rfl | ha
    · exact h₁ _ old
    · exact h₂ a ha
  | case4 => simp at h
  | case5 fuel visited curr stack new missed ih =>
    have hcurr : target ≠ curr := fun e => hs (e ▸ List.mem_cons_self)
    obtain ⟨seen, h₁, h₂, h₃, h₄⟩ := ih h
      (by
        intro a ha b hb
        simp only [List.mem_append, List.mem_reverse, List.mem_cons]
        rcases List.mem_cons.mp ha with rfl | ha
        · exact Or.inr (Or.inl hb)
        · rcases closed a ha b hb with hb | hb
          · exact Or.inl (Or.inr hb)
          · rcases List.mem_cons.mp hb with rfl | hb
            · exact Or.inl (Or.inl rfl)
            · exact Or.inr (Or.inr hb))
      (by simp [hcurr, hv])
      (by
        simp only [List.mem_append, List.mem_reverse, not_or]
        exact ⟨missed, fun ht => hs (List.mem_cons_of_mem _ ht)⟩)
    refine ⟨seen, fun a ha => h₁ a (List.mem_cons_of_mem _ ha), ?_, h₃, h₄⟩
    intro a ha
    rcases List.mem_cons.mp ha with rfl | ha
    · exact h₁ _ List.mem_cons_self
    · exact h₂ a (List.mem_append_right _ ha)

/-- Successors still to be pushed: those of the elements not visited yet. -/
def unexplored (next : α → List α) (nodes visited : List α) : ℕ :=
  (nodes.map fun a => if a ∈ visited then 0 else (next a).length).sum

theorem unexplored_cons_le (next : α → List α) (nodes visited : List α) (a : α) :
    unexplored next nodes (a :: visited) ≤ unexplored next nodes visited := by
  refine List.sum_le_sum fun b _ => ?_
  by_cases hb : b ∈ visited
  · simp [hb]
  · by_cases e : b = a <;> simp [hb, e]

theorem unexplored_cons (next : α → List α) {nodes visited : List α} {a : α}
    (ha : a ∈ nodes) (hv : a ∉ visited) :
    unexplored next nodes (a :: visited) + (next a).length ≤
      unexplored next nodes visited := by
  obtain ⟨front, back, rfl⟩ := List.append_of_mem ha
  have hf := unexplored_cons_le next front visited a
  have hb := unexplored_cons_le next back visited a
  simp only [unexplored, List.map_append, List.map_cons, List.sum_append, List.sum_cons,
    List.mem_cons, true_or, if_true, if_neg hv] at hf hb ⊢
  omega

/-- Every iteration pops one element, and pushes only successors that were still to be pushed;
so the search ends when the fuel covers both. -/
theorem search_isSome (target : α) {nodes : List α} (outside : ∀ a, a ∉ nodes → next a = [])
    (enough : stack.length + unexplored next nodes visited ≤ fuel) :
    ∃ found, search next target fuel visited stack = some found := by
  fun_induction search next target fuel visited stack with
  | case1 => exact ⟨false, rfl⟩
  | case2 => simp at enough
  | case3 fuel visited curr stack _ ih =>
    simp only [List.length_cons] at enough
    exact ih (by omega)
  | case4 => exact ⟨true, rfl⟩
  | case5 fuel visited curr stack new _ ih =>
    apply ih
    simp only [List.length_append, List.length_reverse, List.length_cons] at enough ⊢
    by_cases hc : curr ∈ nodes
    · have := unexplored_cons next hc new
      omega
    · have := unexplored_cons_le next nodes visited curr
      simp only [outside curr hc, List.length_nil]
      omega

/-- Started from one element, the search decides whether the target is reachable. -/
theorem search_decides {nodes : List α} (outside : ∀ a, a ∉ nodes → next a = [])
    {start : α} (ne : start ≠ target)
    (enough : 1 + unexplored next nodes [] ≤ fuel) :
    search next target fuel [] [start] = some true ↔
      ReflTransGen (fun a b => b ∈ next a) start target := by
  constructor
  · intro h
    obtain ⟨a, ha, path⟩ := search_true h
    obtain rfl := List.mem_singleton.mp ha
    exact path.to_reflTransGen
  · intro path
    have covers : [start].length + unexplored next nodes [] ≤ fuel := by simpa using enough
    obtain ⟨found, h⟩ := search_isSome target outside covers
    cases found with
    | true => exact h
    | false =>
      obtain ⟨seen, _, hs, closed, missed⟩ := search_false h (by simp) (by simp)
        (by simpa using ne.symm)
      exfalso
      -- `seen` is closed and contains the start, so a path cannot leave it.
      have stays : ∀ b, ReflTransGen (fun a b => b ∈ next a) start b → b ∈ seen := by
        intro b hb
        induction hb with
        | refl => exact hs start List.mem_cons_self
        | tail _ edge ih => exact closed _ ih _ edge
      exact missed (stays target path)

end Search

/-! ## The longest chain that ends in an element -/

section Chains

variable (r : SetRel α α)

/-- The lengths, in steps, of the chains that end in an element. -/
def chainLengths (a : α) : Set ℕ := {n | ∃ p : RelSeries r, p.last = a ∧ p.length = n}

variable {r} {a b : α} {n : ℕ}

theorem zero_mem_chainLengths : 0 ∈ chainLengths r a :=
  ⟨.singleton r a, RelSeries.last_singleton a, rfl⟩

/-- The last step of a chain starts where a shorter chain ends. -/
theorem succ_mem_chainLengths :
    n + 1 ∈ chainLengths r b ↔ ∃ a, (a, b) ∈ r ∧ n ∈ chainLengths r a := by
  constructor
  · rintro ⟨p, rfl, hlength⟩
    have hne : p.length ≠ 0 := by omega
    refine ⟨p.eraseLast.last, p.eraseLast_last_rel_last hne, p.eraseLast, rfl, ?_⟩
    rw [RelSeries.eraseLast_length]
    omega
  · rintro ⟨_, rel, p, rfl, rfl⟩
    exact ⟨p.snoc b rel, p.last_snoc b rel, rfl⟩

theorem isGreatest_chainLengths_zero (none : ∀ a, (a, b) ∉ r) :
    IsGreatest (chainLengths r b) 0 := by
  refine ⟨zero_mem_chainLengths, fun n hn => ?_⟩
  cases n with
  | zero => exact le_refl 0
  | succ n =>
    obtain ⟨a, rel, _⟩ := succ_mem_chainLengths.mp hn
    exact absurd rel (none a)

/-- One more than the longest chain that ends in a predecessor. -/
theorem isGreatest_chainLengths_succ (rel : (a, b) ∈ r) (longest : IsGreatest (chainLengths r a) n)
    (others : ∀ a, (a, b) ∈ r → ∃ m ≤ n, IsGreatest (chainLengths r a) m) :
    IsGreatest (chainLengths r b) (n + 1) := by
  refine ⟨succ_mem_chainLengths.mpr ⟨a, rel, longest.1⟩, fun k hk => ?_⟩
  cases k with
  | zero => omega
  | succ k =>
    obtain ⟨a', rel', hk'⟩ := succ_mem_chainLengths.mp hk
    obtain ⟨m, hm, greatest⟩ := others a' rel'
    have := greatest.2 hk'
    omega

end Chains

end Daedalus.Foundation
