import Daedalus.Branch.Naming
import Daedalus.Foundation.Words

/-!
# What `Sanitize` computes

The source replaces, collapses in a loop and trims. None of these steps touches a word, that is a
run of allowed characters without a hyphen, and at the end there is one hyphen between two words and
none elsewhere. So the result depends on the words only.
-/
namespace Daedalus.Branch

open Foundation

/-- What does not belong to a word. -/
def isSeparator (c : Char) : Bool := c = '-' || !isValidBranchChar c

theorem words_replaceInvalid (s : String) :
    words (· == '-') (replaceInvalid s) = words isSeparator s.toList := by
  apply words_map
  · intro c hc
    by_cases hvalid : isValidBranchChar c
    · simpa [isSeparator, hvalid] using hc
    · simp [hvalid]
  · intro c hc
    simp only [isSeparator, Bool.or_eq_true, decide_eq_true_eq, Bool.not_eq_true', not_or,
      Bool.not_eq_false] at hc
    exact ⟨if_pos hc.2, hc.1⟩

/-- The words of a text, joined by single hyphens. -/
theorem sanitize_eq_join (s : String) :
    (sanitize s).toList = ['-'].intercalate (words isSeparator s.toList) := by
  have clean := sanitize_clean s
  have joined := eq_intercalate_words clean.first clean.last clean.single
  rwa [toList_sanitize, words_trimBoth, words_collapse, words_replaceInvalid, ← toList_sanitize]
    at joined

/-- The passes of `Sanitize` keep the words, so a second run finds the same ones. -/
theorem words_sanitize (s : String) :
    words isSeparator (sanitize s).toList = words isSeparator s.toList := by
  have unchanged : replaceInvalid (sanitize s) = (sanitize s).toList := by
    rw [replaceInvalid, List.map_congr_left fun c hc => if_pos ((sanitize_clean s).chars c hc),
      List.map_id']
  rw [← words_replaceInvalid, unchanged, toList_sanitize, words_trimBoth, words_collapse,
    words_replaceInvalid]

theorem sanitize_eq_of_words {s t : String}
    (h : words isSeparator s.toList = words isSeparator t.toList) : sanitize s = sanitize t := by
  rw [← String.toList_inj, sanitize_eq_join, sanitize_eq_join, h]

theorem sanitize_eq_empty_iff (s : String) :
    sanitize s = "" ↔ ¬ ∃ c ∈ s.toList, isValidBranchChar c ∧ c ≠ '-' := by
  have separators : (¬ ∃ c ∈ s.toList, isValidBranchChar c ∧ c ≠ '-') ↔
      ∀ c ∈ s.toList, isSeparator c := by
    simp only [isSeparator]
    grind
  rw [separators, ← words_eq_nil_iff]
  constructor
  · intro empty
    rw [← words_sanitize, empty]
    rfl
  · intro none
    rw [← String.toList_inj, sanitize_eq_join, none]
    rfl

/-- What `Sanitize(s)` is. -/
structure Sanitized (s : String) : Prop where
  /-- The loop has ended by its own condition, after at most one pass for each character. -/
  ends : hasPair '-' (collapse '-' (replaceInvalid s).length (replaceInvalid s)) = false
  maximal : Spaced isSeparator (words isSeparator s.toList) s.toList
  joined : (sanitize s).toList = ['-'].intercalate (words isSeparator s.toList)
  clean : Clean (sanitize s)
  empty : sanitize s = "" ↔ ¬ ∃ c ∈ s.toList, isValidBranchChar c ∧ c ≠ '-'
  idempotent : sanitize (sanitize s) = sanitize s
  separators : ∀ t ws, Spaced isSeparator ws s.toList → Spaced isSeparator ws t.toList →
    sanitize t = sanitize s

/-- `Sanitize` ends and returns the words of the text, its maximal runs of allowed characters other
than the hyphen, joined by single hyphens. So it changes nothing the second time, and it does not
see what separates the words. -/
theorem sanitize_joins_words (s : String) : Sanitized s where
  ends := hasPair_collapse (le_refl _)
  maximal := spaced_words isSeparator s.toList
  joined := sanitize_eq_join s
  clean := sanitize_clean s
  empty := sanitize_eq_empty_iff s
  idempotent := sanitize_eq_of_words (words_sanitize s)
  separators _ _ hs ht := sanitize_eq_of_words (ht.words_eq.trans hs.words_eq.symm)

example : sanitize "--a ..b~/c-" = "a-b-c" := by decide +kernel

end Daedalus.Branch
