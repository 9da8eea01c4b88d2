import Daedalus.Foundation.Text

/-!
# Words and what separates them

The words of a text are its maximal runs of elements that are no separators. Collapsing a run of
separators or cutting separators off at the ends keeps the words. What is left, when the separator
is one character, is the words joined by that character.
-/
namespace Daedalus.Foundation

variable {α : Type*} {sep : α → Bool} {s t g w : List α} {ws : List (List α)} {a c : α}

/-- The words of a text, from left to right. -/
def words (sep : α → Bool) (s : List α) : List (List α) := (s.splitOnP sep).filter (· ≠ [])

@[simp] theorem words_nil : words sep [] = [] := by simp [words]

/-- No word goes across a separator. -/
theorem words_append_sep (ha : sep a) :
    words sep (s ++ a :: t) = words sep s ++ words sep t := by
  rw [words, List.splitOnP_append_cons _ _ ha, List.filter_append]
  rfl

theorem words_sep (ha : sep a) : words sep (a :: s) = words sep s := by
  simpa using words_append_sep (s := []) ha

theorem words_chars (nonempty : w ≠ []) (chars : ∀ a ∈ w, ¬ sep a) : words sep w = [w] := by
  rw [words, List.splitOnP_eq_singleton (by simpa using chars)]
  simp [nonempty]

/-- Separators in front of a text add no word. -/
theorem words_gap_append (gap : ∀ a ∈ g, sep a) : words sep (g ++ s) = words sep s := by
  induction g with
  | nil => rfl
  | cons a g ih =>
    rw [List.forall_mem_cons] at gap
    rw [List.cons_append, words_sep gap.1, ih gap.2]

theorem words_gap (gap : ∀ a ∈ g, sep a) : words sep g = [] := by
  simpa using words_gap_append (s := []) gap

/-- Nor do separators behind it. -/
theorem words_append_gap (gap : ∀ a ∈ g, sep a) : words sep (s ++ g) = words sep s := by
  cases g with
  | nil => rw [List.append_nil]
  | cons a g =>
    rw [List.forall_mem_cons] at gap
    rw [words_append_sep gap.1, words_gap gap.2, List.append_nil]

/-! ## Layouts -/

/-- The text consists of the words, in this order, with separators between them and possibly before
and after. -/
inductive Spaced (sep : α → Bool) : List (List α) → List α → Prop
  | gap {g : List α} (gap : ∀ a ∈ g, sep a) : Spaced sep [] g
  | word {g w s : List α} {ws : List (List α)} (gap : ∀ a ∈ g, sep a) (nonempty : w ≠ [])
      (chars : ∀ a ∈ w, ¬ sep a) (ends : ∀ a ∈ s.head?, sep a) (rest : Spaced sep ws s) :
      Spaced sep (w :: ws) (g ++ (w ++ s))

theorem Spaced.cons_sep (h : Spaced sep ws s) (ha : sep a) : Spaced sep ws (a :: s) := by
  cases h with
  | gap gap => exact .gap (by simpa [ha] using gap)
  | @word g w s ws gap nonempty chars ends rest =>
    have longer : ∀ b ∈ a :: g, sep b := by simpa [ha] using gap
    exact .word longer nonempty chars ends rest

/-- A text has only one reading. -/
theorem Spaced.words_eq (h : Spaced sep ws s) : words sep s = ws := by
  induction h with
  | gap gap => exact words_gap gap
  | @word g w s ws gap nonempty chars ends _ ih =>
    rw [words_gap_append gap]
    cases s with
    | nil => rw [List.append_nil, words_chars nonempty chars, ← ih, words_nil]
    | cons a s =>
      have ha : sep a := ends a rfl
      rw [words_append_sep ha, words_chars nonempty chars, ← ih, words_sep ha,
        List.singleton_append]

/-- The text behind an unfinished word `w` is read from left to right. -/
theorem spaced_words_append (chars : ∀ a ∈ w, ¬ sep a) :
    Spaced sep (words sep (w ++ s)) (w ++ s) := by
  induction s generalizing w with
  | nil =>
    rw [List.append_nil]
    by_cases empty : w = []
    · rw [empty, words_nil]
      exact .gap (by simp)
    · have alone : Spaced sep [w] ([] ++ (w ++ [])) :=
        .word (by simp) empty chars (by simp) (.gap (by simp))
      rw [words_chars empty chars]
      simpa using alone
  | cons a s ih =>
    by_cases ha : sep a
    · have rest : Spaced sep (words sep s) (a :: s) := (ih (w := []) (by simp)).cons_sep ha
      rw [words_append_sep ha]
      by_cases empty : w = []
      · rw [empty, words_nil]
        exact rest
      · rw [words_chars empty chars]
        exact .word (g := []) (by simp) empty chars (by simp [ha]) rest
    · have longer : ∀ b ∈ w ++ [a], ¬ sep b := by simpa [or_imp, forall_and, ha] using chars
      have := ih longer
      rwa [List.append_assoc, List.singleton_append] at this

theorem spaced_words (sep : α → Bool) (s : List α) : Spaced sep (words sep s) s :=
  spaced_words_append (w := []) (by simp)

theorem words_eq_nil_iff : words sep s = [] ↔ ∀ a ∈ s, sep a := by
  constructor
  · intro none
    have layout := spaced_words sep s
    rw [none] at layout
    cases layout with
    | gap gap => exact gap
  · exact words_gap

/-! ## Passes that keep the words -/

section Passes

variable [DecidableEq α]

/-- Replacing every separator by one of them. -/
theorem words_map {f : α → α} (hsep : ∀ a, sep a → f a = c)
    (hchar : ∀ a, ¬ sep a → f a = a ∧ a ≠ c) : words (· == c) (s.map f) = words sep s := by
  have layout := spaced_words sep s
  generalize words sep s = ws at layout
  have gaps : ∀ g : List α, (∀ a ∈ g, sep a) → ∀ a ∈ g.map f, (a == c) = true := by
    intro g gap a ha
    obtain ⟨b, hb, rfl⟩ := List.mem_map.mp ha
    simp [hsep b (gap b hb)]
  apply Spaced.words_eq
  induction layout with
  | gap gap => exact .gap (gaps _ gap)
  | @word g w s ws gap nonempty chars ends _ ih =>
    have same : w.map f = w := by
      rw [List.map_congr_left fun a ha => (hchar a (chars a ha)).1, List.map_id']
    rw [List.map_append, List.map_append, same]
    refine .word (gaps g gap) nonempty (fun a ha => by simpa using (hchar a (chars a ha)).2) ?_ ih
    intro a ha
    rw [List.head?_map] at ha
    obtain ⟨b, hb, rfl⟩ := Option.map_eq_some_iff.mp ha
    simp [hsep b (ends b hb)]

/-- A pass that replaces pairs, behind any text. -/
theorem words_append_replacePairs :
    words (· == c) (w ++ replacePairs c s) = words (· == c) (w ++ s) := by
  fun_induction replacePairs c s generalizing w with
  | case1 a b s hab ih =>
    obtain ⟨rfl, rfl⟩ := hab
    have rest := ih (w := [])
    rw [words_append_sep (by simp), words_append_sep (by simp), words_sep (by simp)]
    exact congrArg _ rest
  | case2 a b s _ ih =>
    rw [List.append_cons, ih, ← List.append_cons]
  | case3 s _ => rfl

theorem words_collapse (c : α) (fuel : ℕ) (s : List α) :
    words (· == c) (collapse c fuel s) = words (· == c) s := by
  induction fuel generalizing s with
  | zero => rfl
  | succ fuel ih =>
    rw [collapse]
    split_ifs
    · rw [ih]
      exact words_append_replacePairs (w := [])
    · rfl

theorem words_trimBoth (c : α) (s : List α) :
    words (· == c) (trimBoth c s) = words (· == c) s := by
  have front : ∀ a ∈ s.takeWhile (· = c), (a == c) = true := by
    intro a ha
    simpa using List.mem_takeWhile_imp ha
  have back : ∀ a ∈ (s.dropWhile (· = c)).rtakeWhile (· = c), (a == c) = true := by
    intro a ha
    simpa using List.mem_rtakeWhile_imp ha
  calc words (· == c) (trimBoth c s)
      = words (· == c) (s.dropWhile (· = c)) := by
        conv_rhs =>
          rw [← List.rdropWhile_append_rtakeWhile (p := (· = c)) (l := s.dropWhile (· = c))]
        rw [words_append_gap back]
        rfl
    _ = words (· == c) s := by
        conv_rhs => rw [← List.takeWhile_append_dropWhile (p := (· = c)) (l := s)]
        rw [words_gap_append front]

end Passes

/-! ## Joined words -/

section Joined

variable [DecidableEq α]

/-- An empty field comes from a separator at an end or from two in a row. -/
theorem nil_mem_splitOn (h : [] ∈ s.splitOn c) (nonempty : s ≠ []) :
    s.head? = some c ∨ s.getLast? = some c ∨ [c, c] <:+: s := by
  induction hlen : s.length using Nat.strong_induction_on generalizing s with
  | _ n ih =>
    by_cases hc : c ∈ s
    · obtain ⟨x, rest, rfl, hx⟩ := List.eq_append_cons_of_mem hc
      rw [List.splitOn_append_cons_self_of_not_mem hx] at h
      rcases List.mem_cons.mp h with rfl | h
      · exact .inl rfl
      · by_cases empty : rest = []
        · simp [empty]
        · have shorter : rest.length < n := by simp at hlen; omega
          have hsuffix : rest <:+ x ++ c :: rest := ⟨x ++ [c], by simp⟩
          obtain hhead | hlast | hpair := ih _ shorter h empty rfl
          · obtain ⟨rest, rfl⟩ := List.head?_eq_some_iff.mp hhead
            exact .inr (.inr ⟨x, rest, by simp⟩)
          · refine .inr (.inl ?_)
            rwa [List.append_cons, List.getLast?_append_of_ne_nil _ empty]
          · exact .inr (.inr (hpair.trans hsuffix.isInfix))
    · rw [List.splitOn_eq_singleton hc] at h
      exact absurd (List.mem_singleton.mp h).symm nonempty

/-- A text without superfluous separators is its words, joined. -/
theorem eq_intercalate_words (first : s.head? ≠ some c) (last : s.getLast? ≠ some c)
    (single : ¬ [c, c] <:+: s) : s = [c].intercalate (words (· == c) s) := by
  by_cases empty : s = []
  · simp [empty]
  · have fields : words (· == c) s = s.splitOn c := by
      rw [words, ← List.splitOn_eq_splitOnP, List.filter_eq_self]
      intro w hw
      rw [decide_eq_true_iff]
      rintro rfl
      rcases nil_mem_splitOn hw empty with h | h | h
      · exact first h
      · exact last h
      · exact single h
    rw [fields, List.intercalate_splitOn]

end Joined

end Daedalus.Foundation
