import Mathlib

/-!
# Text as a list of characters

The operations of a string library that act on separators: cutting off a known beginning, splitting
into a bounded number of fields, and collapsing runs of a character. They are stated for lists over
any type with decidable equality.
-/
namespace Daedalus.Foundation

variable {α : Type*} [DecidableEq α]

/-! ## A known beginning -/

/-- `s` without the leading `pre`; `s` itself when it does not start with `pre`. -/
def trimStart (pre s : List α) : List α := if pre.isPrefixOf s then s.drop pre.length else s

@[simp] theorem trimStart_append (pre s : List α) : trimStart pre (pre ++ s) = s := by
  simp [trimStart]

theorem trimStart_of_not {pre s : List α} (h : ¬ pre <+: s) : trimStart pre s = s := by
  simp [trimStart, h]

/-- What is left starts where the beginning ended. -/
theorem trimStart_eq_iff {pre s t : List α} :
    trimStart pre s = t ↔ s = pre ++ t ∨ ¬ pre <+: s ∧ s = t := by
  by_cases h : pre <+: s
  · obtain ⟨rest, rfl⟩ := h
    simp
  · rw [trimStart_of_not h]
    constructor
    · rintro rfl
      exact .inr ⟨h, rfl⟩
    · rintro (rfl | ⟨_, rfl⟩)
      · exact absurd (List.prefix_append _ _) h
      · rfl

/-! ## Fields -/

/-- At most `n` fields between separators; the last one is the rest of the text. -/
def splitN (sep : α) : ℕ → List α → List (List α)
  | 0, _ => []
  | 1, s => [s]
  | n + 2, s =>
    if sep ∈ s then
      s.takeWhile (· ≠ sep) :: splitN sep (n + 1) (s.dropWhile (· ≠ sep)).tail
    else [s]

/-- The text up to the first separator. -/
theorem takeWhile_append_sep {sep : α} {x s : List α} (hx : sep ∉ x) :
    (x ++ sep :: s).takeWhile (· ≠ sep) = x ∧ (x ++ sep :: s).dropWhile (· ≠ sep) = sep :: s := by
  induction x with
  | nil => simp
  | cons a x ih =>
    simp only [List.mem_cons, not_or] at hx
    obtain ⟨h₁, h₂⟩ := ih hx.2
    have ha : a ≠ sep := Ne.symm hx.1
    simp [ha] at h₁ h₂ ⊢
    exact ⟨h₁, h₂⟩

theorem splitN_append {sep : α} {n : ℕ} {x s : List α} (hx : sep ∉ x) :
    splitN sep (n + 2) (x ++ sep :: s) = x :: splitN sep (n + 1) s := by
  obtain ⟨htake, hdrop⟩ := takeWhile_append_sep (s := s) hx
  rw [splitN, if_pos (by simp), htake, hdrop, List.tail_cons]

/-- Three fields are the text between its first two separators, and the rest. -/
theorem splitN_three_iff {sep : α} {s x y z : List α} :
    splitN sep 3 s = [x, y, z] ↔ sep ∉ x ∧ sep ∉ y ∧ s = x ++ sep :: (y ++ sep :: z) := by
  constructor
  · intro h
    by_cases hs : sep ∈ s
    · obtain ⟨x', rest, rfl, hx'⟩ := List.eq_append_cons_of_mem hs
      rw [splitN_append hx', List.cons.injEq] at h
      obtain ⟨rfl, h⟩ := h
      by_cases hrest : sep ∈ rest
      · obtain ⟨y', rest', rfl, hy'⟩ := List.eq_append_cons_of_mem hrest
        rw [splitN_append hy', splitN] at h
        simp only [List.cons.injEq, and_true] at h
        obtain ⟨rfl, rfl⟩ := h
        exact ⟨hx', hy', rfl⟩
      · simp [splitN, hrest] at h
    · simp [splitN, hs] at h
  · rintro ⟨hx, hy, rfl⟩
    rw [splitN_append hx, splitN_append hy, splitN]

/-! ## Runs of one character -/

/-- The text has the character twice in a row. -/
def hasPair (c : α) : List α → Bool
  | a :: b :: s => (a = c ∧ b = c) || hasPair c (b :: s)
  | _ => false

theorem hasPair_iff {c : α} {s : List α} : hasPair c s ↔ [c, c] <:+: s := by
  fun_induction hasPair c s with
  | case1 a b s ih =>
    rw [Bool.or_eq_true, decide_eq_true_iff, ih, List.infix_cons_iff (a := a)]
    simp [List.cons_prefix_cons, eq_comm]
  | case2 s hs =>
    simp only [Bool.false_eq_true, false_iff]
    rintro ⟨front, back, rfl⟩
    cases front with
    | nil => exact hs c c back rfl
    | cons a front =>
      cases front with
      | nil => exact hs a c (c :: back) rfl
      | cons b front => exact hs a b (front ++ [c, c] ++ back) rfl

/-- One pass from left to right that replaces each pair by a single character. -/
def replacePairs (c : α) : List α → List α
  | a :: b :: s => if a = c ∧ b = c then c :: replacePairs c s else a :: replacePairs c (b :: s)
  | s => s

/-- Passes until there is no pair left, or the fuel runs out. -/
def collapse (c : α) : ℕ → List α → List α
  | 0, s => s
  | fuel + 1, s => if hasPair c s then collapse c fuel (replacePairs c s) else s

theorem length_replacePairs_le (c : α) (s : List α) : (replacePairs c s).length ≤ s.length := by
  fun_induction replacePairs c s with
  | case1 a b s h ih =>
    simp only [List.length_cons]
    omega
  | case2 a b s h ih =>
    simp only [List.length_cons] at ih ⊢
    omega
  | case3 s _ => exact le_refl _

/-- A pass over a text with a pair makes it shorter. -/
theorem length_replacePairs_lt {c : α} {s : List α} (h : hasPair c s) :
    (replacePairs c s).length < s.length := by
  fun_induction replacePairs c s with
  | case1 a b s _ _ =>
    have := length_replacePairs_le c s
    simp only [List.length_cons]
    omega
  | case2 a b s hne ih =>
    have := ih (by simpa [hasPair, hne] using h)
    simp only [List.length_cons] at this ⊢
    omega
  | case3 s hs =>
    unfold hasPair at h
    split at h
    · exact absurd rfl (hs _ _ _)
    · cases h

/-- The loop ends by its own condition: the length of the text is enough fuel. -/
theorem hasPair_collapse {c : α} {fuel : ℕ} {s : List α} (enough : s.length ≤ fuel) :
    hasPair c (collapse c fuel s) = false := by
  induction fuel generalizing s with
  | zero =>
    obtain rfl := List.length_eq_zero_iff.mp (Nat.le_zero.mp enough)
    rfl
  | succ fuel ih =>
    rw [collapse]
    split_ifs with h
    · have := length_replacePairs_lt h
      exact ih (by omega)
    · simpa using h

theorem mem_replacePairs {c x : α} {s : List α} (h : x ∈ replacePairs c s) : x ∈ s := by
  fun_induction replacePairs c s with
  | case1 a b s hab ih => grind
  | case2 a b s _ ih => grind
  | case3 s _ => exact h

theorem mem_collapse {c x : α} {fuel : ℕ} {s : List α} (h : x ∈ collapse c fuel s) : x ∈ s := by
  induction fuel generalizing s with
  | zero => exact h
  | succ fuel ih =>
    rw [collapse] at h
    split_ifs at h
    · exact mem_replacePairs (ih h)
    · exact h

/-- The text without the character at both ends. -/
def trimBoth (c : α) (s : List α) : List α := (s.dropWhile (· = c)).rdropWhile (· = c)

theorem trimBoth_infix (c : α) (s : List α) : trimBoth c s <:+: s :=
  (List.rdropWhile_prefix _ _).isInfix.trans (List.dropWhile_suffix _).isInfix

theorem getLast?_trimBoth (c : α) (s : List α) : (trimBoth c s).getLast? ≠ some c := by
  intro h
  have hne : trimBoth c s ≠ [] := by
    intro e
    simp [e] at h
  rw [List.getLast?_eq_some_getLast hne] at h
  have := List.rdropWhile_last_not (· = c) (s.dropWhile (· = c)) hne
  exact this (by simpa [trimBoth] using Option.some.inj h)

theorem head?_trimBoth (c : α) (s : List α) : (trimBoth c s).head? ≠ some c := by
  intro h
  obtain ⟨rest, hrest⟩ := List.rdropWhile_prefix (· = c) (s.dropWhile (· = c))
  have head : (s.dropWhile (· = c)).head? = some c := by
    rw [← hrest, List.head?_append]
    simp [show (List.rdropWhile (· = c) (s.dropWhile (· = c))).head? = some c from h]
  have := List.head?_dropWhile_not (· = c) s
  simp [head] at this

end Daedalus.Foundation
