import Daedalus.Foundation.Run
import Daedalus.Foundation.Reachability

/-!
# Depth-first search with three colours

An element is white until the search enters it, gray while its successors are explored and black
after that. The gray elements are those on the call stack, so an edge into one of them closes a
cycle; a black element has only black successors, so no path from it leads back. As for the search
with an explicit stack, `next a` lists the successors of `a`.
-/
namespace Daedalus.Foundation

open Relation

inductive Color where
  | white
  | gray
  | black
  deriving DecidableEq, Repr

/-- Why a search ends before all is explored: it met a gray element, or the fuel ran out. -/
inductive Halt (α : Type*) where
  | gray (a : α)
  | fuel
  deriving DecidableEq, Repr

variable {α : Type*}

/-- One successor in the loop of a search that goes on with `enter`. -/
def visit (enter : (α → Color) → α → Except (Halt α) (α → Color)) (color : α → Color) (b : α) :
    Except (Halt α) (α → Color) :=
  match color b with
  | .gray => .error (.gray b)
  | .white => enter color b
  | .black => .ok color

/-- Explore a white element and all that is white behind it. The fuel bounds the depth of the
recursion. -/
def explore [DecidableEq α] (next : α → List α) :
    ℕ → (α → Color) → α → Except (Halt α) (α → Color)
  | 0, _, _ => .error .fuel
  | fuel + 1, color, a => do
    let color ← (next a).foldlM (visit (explore next fuel)) (Function.update color a .gray)
    return Function.update color a .black

/-- One root; it is skipped when an earlier one led to it. -/
def enterRoot [DecidableEq α] (next : α → List α) (fuel : ℕ) (color : α → Color) (a : α) :
    Except (Halt α) (α → Color) :=
  if color a = .white then explore next fuel color a else .ok color

/-- Explore all that the roots lead to. -/
def exploreAll [DecidableEq α] (next : α → List α) (fuel : ℕ) (roots : List α) :
    Except (Halt α) (α → Color) :=
  roots.foldlM (enterRoot next fuel) fun _ => .white

variable {next : α → List α} {color color' color'' : α → Color} {a b : α} {nodes : List α}

/-! ## Colours before and after -/

/-- What an exploration leaves: the same gray elements, and no new white ones. -/
structure Explored (color color' : α → Color) : Prop where
  gray : ∀ a, color' a = .gray ↔ color a = .gray
  white : ∀ a, color' a = .white → color a = .white

theorem Explored.refl : Explored color color := ⟨fun _ => .rfl, fun _ h => h⟩

theorem Explored.trans (h : Explored color color') (h' : Explored color' color'') :
    Explored color color'' :=
  ⟨fun a => (h'.gray a).trans (h.gray a), fun a ha => h.white a (h'.white a ha)⟩

theorem Explored.black (h : Explored color color') (ha : color a = .black) : color' a = .black := by
  cases hc : color' a with
  | white => simp [h.white a hc] at ha
  | gray => simp [(h.gray a).mp hc] at ha
  | black => rfl

/-- How many elements of the list the search has not met. -/
def whites (nodes : List α) (color : α → Color) : ℕ := nodes.countP (color · = .white)

theorem whites_le (nodes : List α) (h : ∀ a, color' a = .white → color a = .white) :
    whites nodes color' ≤ whites nodes color := by
  apply List.countP_mono_left
  intro a _ ha
  exact decide_eq_true (h a (of_decide_eq_true ha))

section Entering

variable [DecidableEq α]

/-- A white element is gray while its successors are explored, and black after that. -/
theorem Explored.blacken (h : Explored (Function.update color a .gray) color')
    (hwhite : color a = .white) : Explored color (Function.update color' a .black) := by
  constructor
  · intro b
    have hgray := h.gray b
    rw [Function.update_apply] at hgray ⊢
    split_ifs at hgray ⊢ with e
    · simp [e, hwhite]
    · exact hgray
  · intro b hb
    rw [Function.update_apply] at hb
    split_ifs at hb with e
    have hcolor := h.white b hb
    rwa [Function.update_apply, if_neg e] at hcolor

/-- Entering a white element leaves fewer white ones. -/
theorem whites_gray_lt (ha : a ∈ nodes) (hwhite : color a = .white) :
    whites nodes (Function.update color a .gray) < whites nodes color := by
  obtain ⟨front, back, rfl⟩ := List.append_of_mem ha
  have le : ∀ b, Function.update color a .gray b = .white → color b = .white := by
    intro b hb
    rw [Function.update_apply] at hb
    split_ifs at hb
    exact hb
  have hfront := whites_le front le
  have hback := whites_le back le
  simp only [whites] at hfront hback
  simp [whites, hwhite]
  omega

end Entering

/-! ## Black elements -/

/-- Black elements are done with: their successors are black too, and no path leads back. -/
structure Finished (next : α → List α) (color : α → Color) : Prop where
  closed : ∀ a, color a = .black → ∀ b ∈ next a, color b = .black
  acyclic : ∀ a, color a = .black → ¬ TransGen (fun a b => b ∈ next a) a a

/-- A path from a black element meets black ones only. -/
theorem Finished.path (h : Finished next color) (ha : color a = .black)
    (path : ReflTransGen (fun a b => b ∈ next a) a b) : color b = .black := by
  induction path with
  | refl => exact ha
  | tail _ edge ih => exact h.closed _ ih _ edge

section Blackening

variable [DecidableEq α]

theorem Finished.enter (h : Finished next color) (hwhite : color a = .white) :
    Finished next (Function.update color a .gray) := by
  have black : ∀ b, Function.update color a .gray b = .black ↔ color b = .black := by
    intro b
    rw [Function.update_apply]
    split_ifs with e
    · simp [e, hwhite]
    · rfl
  constructor
  · intro b hb c hc
    exact (black c).mpr (h.closed b ((black b).mp hb) c hc)
  · intro b hb
    exact h.acyclic b ((black b).mp hb)

/-- A gray element may turn black when all its successors are black: a path from it back to itself
would end in a black element. -/
theorem Finished.blacken (h : Finished next color) (hgray : color a = .gray)
    (succs : ∀ b ∈ next a, color b = .black) : Finished next (Function.update color a .black) := by
  have black : ∀ b, Function.update color a .black b = .black ↔ b = a ∨ color b = .black := by
    intro b
    rw [Function.update_apply]
    split_ifs with e <;> simp [e]
  constructor
  · intro b hb c hc
    rcases (black b).mp hb with rfl | hb
    · exact (black c).mpr (.inr (succs c hc))
    · exact (black c).mpr (.inr (h.closed b hb c hc))
  · intro b hb cycle
    rcases (black b).mp hb with rfl | hb
    · obtain ⟨c, edge, back⟩ := TransGen.head'_iff.mp cycle
      have hblack := h.path (succs c edge) back
      simp [hgray] at hblack
    · exact h.acyclic b hb cycle

end Blackening

/-! ## The search -/

/-- The search halted for a reason: there is a cycle through the gray element it met. -/
def Halt.OnCycle (next : α → List α) : Halt α → Prop
  | .gray a => TransGen (fun a b => b ∈ next a) a a
  | .fuel => False

section Search

variable [DecidableEq α] (inside : ∀ a, ∀ b ∈ next a, b ∈ nodes)
include inside

/-- A search from a white element blackens it or meets a cycle, when the gray elements lead to it
and there is fuel for the white ones. -/
theorem explore_cases (fuel : ℕ) (ha : a ∈ nodes) (hwhite : color a = .white)
    (stack : ∀ b, color b = .gray → TransGen (fun a b => b ∈ next a) b a)
    (finished : Finished next color) (enough : whites nodes color ≤ fuel) :
    (∃ color', explore next fuel color a = .ok color' ∧
      Explored color color' ∧ Finished next color' ∧ color' a = .black) ∨
    ∃ halt, explore next fuel color a = .error halt ∧ halt.OnCycle next := by
  induction fuel generalizing color a with
  | zero =>
    have := whites_gray_lt ha hwhite
    omega
  | succ fuel ih =>
    have fewer := whites_gray_lt ha hwhite
    set entered := Function.update color a .gray with hentered
    -- Along the loop nothing new is gray, and the successors behind it are black.
    have loop : (∃ c, (next a).foldlM (visit (explore next fuel)) entered = .ok c ∧
          Explored entered c ∧ Finished next c ∧ ∀ b ∈ next a, c b = .black) ∨
        ∃ halt, (next a).foldlM (visit (explore next fuel)) entered = .error halt ∧
          halt.OnCycle next := by
      apply foldlM_stops fun past c =>
        Explored entered c ∧ Finished next c ∧ ∀ b ∈ past, c b = .black
      · rintro past b rest c split ⟨explored, finished, done⟩
        have edge : b ∈ next a := by simp [← split]
        have leads : ∀ x, c x = .gray → TransGen (fun a b => b ∈ next a) x b := by
          intro x hx
          rw [explored.gray, hentered, Function.update_apply] at hx
          split_ifs at hx with e
          · exact e ▸ .single edge
          · exact (stack x hx).tail edge
        cases hc : c b with
        | gray => exact .inr ⟨.gray b, by simp [visit, hc], leads b hc⟩
        | black =>
          refine .inl ⟨c, by simp [visit, hc], explored, finished, ?_⟩
          simpa [or_imp, forall_and, hc] using done
        | white =>
          have := whites_le nodes explored.white
          have goesOn : visit (explore next fuel) c b = explore next fuel c b := by simp [visit, hc]
          rw [goesOn]
          obtain ⟨c', hok, explored', finished', hb⟩ | stops :=
            ih (inside a b edge) hc leads finished (by omega)
          · refine .inl ⟨c', hok, explored.trans explored', finished', ?_⟩
            intro x hx
            rcases List.mem_append.mp hx with hx | hx
            · exact explored'.black (done x hx)
            · exact List.mem_singleton.mp hx ▸ hb
          · exact .inr stops
      · exact ⟨.refl, finished.enter hwhite, by simp⟩
    obtain ⟨c, hloop, explored, finished, succs⟩ | ⟨halt, hloop, cycle⟩ := loop
    · have hgray : c a = .gray := by simp [explored.gray, hentered]
      refine .inl ⟨Function.update c a .black, ?_, explored.blacken hwhite,
        finished.blacken hgray succs, by simp⟩
      rw [explore, hloop]
      rfl
    · refine .inr ⟨halt, ?_, cycle⟩
      rw [explore, hloop]
      rfl

/-- Between two roots nothing is gray. The search ends with the roots black, or meets a cycle. -/
theorem exploreAll_cases {fuel : ℕ} (enough : nodes.length ≤ fuel) {roots : List α}
    (known : ∀ a ∈ roots, a ∈ nodes) :
    (∃ color, exploreAll next fuel roots = .ok color ∧ Finished next color ∧
      ∀ a ∈ roots, color a = .black) ∨
    ∃ halt, exploreAll next fuel roots = .error halt ∧ halt.OnCycle next := by
  have loop : (∃ c, roots.foldlM (enterRoot next fuel) (fun _ => .white) = .ok c ∧
        (∀ a, c a ≠ .gray) ∧ Finished next c ∧ ∀ a ∈ roots, c a = .black) ∨
      ∃ halt, roots.foldlM (enterRoot next fuel) (fun _ => .white) = .error halt ∧
        halt.OnCycle next := by
    apply foldlM_stops fun past c =>
      (∀ a, c a ≠ .gray) ∧ Finished next c ∧ ∀ a ∈ past, c a = .black
    · rintro past a rest c split ⟨calm, finished, done⟩
      by_cases hwhite : c a = .white
      · rw [enterRoot, if_pos hwhite]
        obtain ⟨c', hok, explored, finished', ha⟩ | stops := explore_cases inside fuel
          (known a (by simp [← split])) hwhite (fun b hb => absurd hb (calm b)) finished
          (List.countP_le_length.trans enough)
        · refine .inl ⟨c', hok, fun b hb => calm b ((explored.gray b).mp hb), finished', ?_⟩
          intro b hb
          rcases List.mem_append.mp hb with hb | hb
          · exact explored.black (done b hb)
          · exact List.mem_singleton.mp hb ▸ ha
        · exact .inr stops
      · have ha : c a = .black := by
          cases hc : c a with
          | white => exact absurd hc hwhite
          | gray => exact absurd hc (calm a)
          | black => rfl
        refine .inl ⟨c, by rw [enterRoot, if_neg hwhite], calm, finished, ?_⟩
        simpa [or_imp, forall_and, ha] using done
    · exact ⟨by simp, ⟨by simp, by simp⟩, by simp⟩
  obtain ⟨c, hok, _, finished, done⟩ | stops := loop
  · exact .inl ⟨c, hok, finished, done⟩
  · exact .inr stops

/-- With all elements that have successors among its roots, the search ends within its fuel, and it
goes through exactly when there is no cycle. -/
theorem exploreAll_decides {fuel : ℕ} (enough : nodes.length ≤ fuel) {roots : List α}
    (known : ∀ a ∈ roots, a ∈ nodes) (all : ∀ a, a ∉ roots → next a = []) :
    exploreAll next fuel roots ≠ .error .fuel ∧
    ((∃ color, exploreAll next fuel roots = .ok color) ↔ Acyclic fun a b => b ∈ next a) ∧
    ∀ a, exploreAll next fuel roots = .error (.gray a) →
      TransGen (fun a b => b ∈ next a) a a := by
  obtain ⟨color, hok, finished, black⟩ | ⟨halt, herr, cycle⟩ := exploreAll_cases inside enough known
  · rw [hok]
    refine ⟨by simp, ⟨fun _ a cycle => ?_, fun _ => ⟨color, rfl⟩⟩, by simp⟩
    by_cases ha : a ∈ roots
    · exact finished.acyclic a (black a ha) cycle
    · obtain ⟨b, edge, _⟩ := TransGen.head'_iff.mp cycle
      simp [all a ha] at edge
  · cases halt with
    | fuel => exact cycle.elim
    | gray a =>
      rw [herr]
      refine ⟨by simp, ⟨by simp, fun acyclic => absurd cycle (acyclic a)⟩, ?_⟩
      rintro b hb
      cases hb
      exact cycle

end Search

end Daedalus.Foundation
