import Mathlib

/-!
# Runs of partial step functions

A component is given by a state type and a partial step function: `step s a` is the state
after the action `a`, and `none` says that `a` is not enabled in `s`. Everything a component
leaves open (which goroutine moves, what a remote peer answers, when a context is cancelled)
is part of the action, so the step functions are executable and a run is a list of actions.

The rules below are the only inductions over runs. An invariant is proved for one step; the
rules carry it along every run, along the runs whose steps all meet a side condition, or
along a run together with the list of actions performed so far. The rules for loops over a list
are of the same kind.
-/
namespace Daedalus.Foundation

variable {σ τ α β : Type*}

/-- Perform a list of actions; the result is `none` as soon as one is not enabled. -/
def run (step : σ → α → Option σ) : σ → List α → Option σ
  | s, [] => some s
  | s, a :: as => (step s a).bind fun t => run step t as

variable {step : σ → α → Option σ} {s t : σ} {a : α} {as bs : List α}

@[simp] theorem run_nil : run step s [] = some s := rfl

theorem run_cons : run step s (a :: as) = some t ↔
    ∃ u, step s a = some u ∧ run step u as = some t := by
  simp [run, Option.bind_eq_some_iff]

theorem run_append : run step s (as ++ bs) = some t ↔
    ∃ u, run step s as = some u ∧ run step u bs = some t := by
  induction as generalizing s with
  | nil => simp
  | cons a as ih =>
    simp only [List.cons_append, run_cons, ih]
    constructor
    · rintro ⟨u, hu, v, hv, ht⟩
      exact ⟨v, ⟨u, hu, hv⟩, ht⟩
    · rintro ⟨v, ⟨u, hu, hv⟩, ht⟩
      exact ⟨u, hu, v, hv, ht⟩

theorem run_snoc : run step s (as ++ [a]) = some t ↔
    ∃ u, run step s as = some u ∧ step u a = some t := by
  simp [run_append, run_cons]

/-- Every action of the run meets `ok` in the state it is performed in. -/
def Meets (step : σ → α → Option σ) (ok : σ → α → Prop) : σ → List α → Prop
  | _, [] => True
  | s, a :: as => ok s a ∧ ∀ t, step s a = some t → Meets step ok t as

theorem meets_cons {ok : σ → α → Prop} : Meets step ok s (a :: as) ↔
    ok s a ∧ ∀ t ∈ step s a, Meets step ok t as := Iff.rfl

instance Meets.decidable (step : σ → α → Option σ) (ok : σ → α → Prop)
    [∀ s a, Decidable (ok s a)] : ∀ s as, Decidable (Meets step ok s as)
  | _, [] => isTrue trivial
  | s, a :: as =>
    have : ∀ t, Decidable (Meets step ok t as) := fun t => Meets.decidable step ok t as
    decidable_of_iff (ok s a ∧ ∀ t ∈ step s a, Meets step ok t as) meets_cons.symm

theorem Meets.of_forall {ok : α → Prop} (h : ∀ a ∈ as, ok a) :
    Meets step (fun _ => ok) s as := by
  induction as generalizing s with
  | nil => trivial
  | cons a as ih =>
    refine ⟨h a List.mem_cons_self, fun t _ => ih fun b hb => ?_⟩
    exact h b (List.mem_cons_of_mem a hb)

theorem Meets.of_always {ok : σ → α → Prop} (h : ∀ a ∈ as, ∀ s, ok s a) :
    Meets step ok s as := by
  induction as generalizing s with
  | nil => trivial
  | cons a as ih =>
    refine ⟨h a List.mem_cons_self s, fun t _ => ih fun b hb => ?_⟩
    exact h b (List.mem_cons_of_mem a hb)

/-- One step preserves `Inv` whenever the action meets `ok`, so every run does whose
actions all meet it. -/
theorem Meets.invariant {ok : σ → α → Prop} (Inv : σ → Prop)
    (preserved : ∀ s a t, Inv s → ok s a → step s a = some t → Inv t)
    (hok : Meets step ok s as) (h : run step s as = some t) (hs : Inv s) : Inv t := by
  induction as generalizing s with
  | nil =>
    cases h
    exact hs
  | cons a as ih =>
    obtain ⟨u, hu, ht⟩ := run_cons.mp h
    exact ih (hok.2 u hu) ht (preserved s a u hs hok.1 hu)

/-- The unconditional form: what one step preserves, every run preserves. -/
theorem run_invariant (Inv : σ → Prop)
    (preserved : ∀ s a t, Inv s → step s a = some t → Inv t)
    (h : run step s as = some t) (hs : Inv s) : Inv t := by
  induction as generalizing s with
  | nil =>
    cases h
    exact hs
  | cons a as ih =>
    obtain ⟨u, hu, ht⟩ := run_cons.mp h
    exact ih ht (preserved s a u hs hu)

/-- An invariant that may mention the actions performed so far, oldest first. -/
theorem run_history (Inv : List α → σ → Prop)
    (preserved : ∀ past s a t, Inv past s → step s a = some t → Inv (past ++ [a]) t)
    (h : run step s as = some t) (hs : Inv [] s) : Inv as t := by
  induction as using List.reverseRecOn generalizing t with
  | nil =>
    cases h
    exact hs
  | append_singleton as a ih =>
    obtain ⟨u, hu, ht⟩ := run_snoc.mp h
    exact preserved as u a t (ih hu) ht

/-- Simulation: if every step is matched by some steps of another system, then so is every run. -/
theorem run_simulates {R : σ → τ → Prop} {step' : τ → β → Option τ} {u : τ}
    (matched : ∀ s u a t, R s u → step s a = some t → ∃ bs v, run step' u bs = some v ∧ R t v)
    (h : run step s as = some t) (related : R s u) :
    ∃ bs v, run step' u bs = some v ∧ R t v := by
  induction as generalizing s u with
  | nil =>
    cases h
    exact ⟨[], u, rfl, related⟩
  | cons a as ih =>
    obtain ⟨s', hs', ht⟩ := run_cons.mp h
    obtain ⟨bs, u', hu', related'⟩ := matched s u a s' related hs'
    obtain ⟨cs, v, hv, final⟩ := ih ht related'
    exact ⟨bs ++ cs, v, run_append.mpr ⟨u', hu', hv⟩, final⟩

/-- Refinement by an abstraction function: if every step from a state of the invariant is some
steps of another system, seen through `abs`, then so is every run. -/
theorem run_refines {abs : σ → τ} {step' : τ → β → Option τ} (Inv : σ → Prop)
    (preserved : ∀ s a t, Inv s → step s a = some t →
      Inv t ∧ ∃ bs, run step' (abs s) bs = some (abs t))
    (h : run step s as = some t) (hs : Inv s) : ∃ bs, run step' (abs s) bs = some (abs t) := by
  have matched : ∀ s u a t, (Inv s ∧ u = abs s) → step s a = some t →
      ∃ bs v, run step' u bs = some v ∧ Inv t ∧ v = abs t := by
    rintro s _ a t ⟨inv, rfl⟩ hstep
    obtain ⟨inv', bs, hbs⟩ := preserved s a t inv hstep
    exact ⟨bs, abs t, hbs, inv', rfl⟩
  obtain ⟨bs, v, hv, -, rfl⟩ := run_simulates matched h ⟨hs, rfl⟩
  exact ⟨bs, hv⟩

/-- What the steps of a run let an observer see, oldest first. -/
def observe (step : σ → α → Option σ) (obs : σ → α → List β) : σ → List α → List β
  | _, [] => []
  | s, a :: as => obs s a ++ (step s a).elim [] fun t => observe step obs t as

/-- An invariant that may mention the actions performed and the observations made so far. -/
theorem Meets.observed {ok : σ → α → Prop} (obs : σ → α → List β)
    (Inv : List α → List β → σ → Prop)
    (preserved : ∀ past seen s a t, Inv past seen s → ok s a → step s a = some t →
      Inv (past ++ [a]) (seen ++ obs s a) t)
    (hok : Meets step ok s as) (h : run step s as = some t) (hs : Inv [] [] s) :
    Inv as (observe step obs s as) t := by
  have onward : ∀ past seen, Inv past seen s →
      Inv (past ++ as) (seen ++ observe step obs s as) t := by
    clear hs
    induction as generalizing s with
    | nil =>
      cases h
      intro past seen hs
      simpa [observe] using hs
    | cons a as ih =>
      obtain ⟨u, hu, ht⟩ := run_cons.mp h
      intro past seen hs
      have later := ih (hok.2 u hu) ht _ _ (preserved past seen s a u hs hok.1 hu)
      simpa [observe, hu] using later
  exact onward [] [] hs

/-- An invariant that may mention the actions performed so far, along the runs that meet `ok`. -/
theorem Meets.history {ok : σ → α → Prop} (Inv : List α → σ → Prop)
    (preserved : ∀ past s a t, Inv past s → ok s a → step s a = some t → Inv (past ++ [a]) t)
    (hok : Meets step ok s as) (h : run step s as = some t) (hs : Inv [] s) : Inv as t := by
  exact Meets.observed (fun _ _ => ([] : List Unit)) (fun past _ s => Inv past s)
    (fun past _ => preserved past) hok h hs

/-- A measure that every step decreases bounds the length of every run. -/
theorem Meets.length_le {ok : σ → α → Prop} (Inv : σ → Prop) (μ : σ → ℕ)
    (preserved : ∀ s a t, Inv s → ok s a → step s a = some t → Inv t)
    (decreases : ∀ s a t, Inv s → ok s a → step s a = some t → μ t < μ s)
    (hok : Meets step ok s as) (h : run step s as = some t) (hs : Inv s) :
    as.length + μ t ≤ μ s := by
  induction as generalizing s with
  | nil =>
    cases h
    simp
  | cons a as ih =>
    obtain ⟨u, hu, ht⟩ := run_cons.mp h
    have tail := ih (hok.2 u hu) ht (preserved s a u hs hok.1 hu)
    have head := decreases s a u hs hok.1 hu
    simp only [List.length_cons]
    omega

/-- A sequence of two fallible computations succeeds when both do. -/
theorem bind_eq_ok {ε : Type*} {γ δ : Type _} {x : Except ε γ} {f : γ → Except ε δ} {b : δ} :
    x >>= f = .ok b ↔ ∃ a, x = .ok a ∧ f a = .ok b := by
  cases x with
  | error e => exact ⟨nofun, nofun⟩
  | ok a =>
    refine ⟨fun h => ⟨a, rfl, h⟩, ?_⟩
    rintro ⟨_, ⟨⟩, h⟩
    exact h

theorem toOption_eq_some {ε : Type*} {γ : Type _} {x : Except ε γ} {a : γ} :
    x.toOption = some a ↔ x = .ok a := by
  cases x <;> simp [Except.toOption]

/-- A loop over a list: what the body preserves holds after the loop. The body may use which
elements are behind it and which are still to come. -/
theorem foldl_history {f : σ → α → σ} (Inv : List α → σ → Prop)
    (preserved : ∀ past a rest s, past ++ a :: rest = as → Inv past s → Inv (past ++ [a]) (f s a))
    (hs : Inv [] s) : Inv as (as.foldl f s) := by
  have behind : ∀ past rest, past ++ rest = as → Inv past (past.foldl f s) := by
    intro past
    induction past using List.reverseRecOn with
    | nil => exact fun _ _ => hs
    | append_singleton past a ih =>
      intro rest split
      have split : past ++ a :: rest = as := by simpa using split
      rw [List.foldl_append]
      exact preserved past a rest _ split (ih _ split)
  exact behind as [] (List.append_nil as)

/-- A loop that may stop with an error: what the body preserves holds after the loop, for the
elements it went through. -/
theorem foldlM_history {ε : Type*} {f : σ → α → Except ε σ} (Inv : List α → σ → Prop)
    (preserved : ∀ past s a t, Inv past s → f s a = .ok t → Inv (past ++ [a]) t)
    (h : as.foldlM f s = .ok t) (hs : Inv [] s) : Inv as t := by
  induction as using List.reverseRecOn generalizing t with
  | nil =>
    cases h
    exact hs
  | append_singleton as a ih =>
    rw [List.foldlM_append, bind_eq_ok] at h
    obtain ⟨u, hu, h⟩ := h
    rw [List.foldlM_cons, bind_eq_ok] at h
    obtain ⟨v, hv, h⟩ := h
    cases h
    exact preserved as u a _ (ih hu) hv

/-- A loop whose body, as long as the invariant holds, keeps it or stops with an expected error: the
loop goes through, or stops with such an error. -/
theorem foldlM_stops {ε : Type*} {f : σ → α → Except ε σ} (Inv : List α → σ → Prop)
    (Expected : ε → Prop)
    (body : ∀ past a rest s, past ++ a :: rest = as → Inv past s →
      (∃ t, f s a = .ok t ∧ Inv (past ++ [a]) t) ∨ ∃ err, f s a = .error err ∧ Expected err)
    (hs : Inv [] s) :
    (∃ t, as.foldlM f s = .ok t ∧ Inv as t) ∨ ∃ err, as.foldlM f s = .error err ∧ Expected err := by
  have behind : ∀ past rest, past ++ rest = as →
      (∃ t, past.foldlM f s = .ok t ∧ Inv past t) ∨
        ∃ err, past.foldlM f s = .error err ∧ Expected err := by
    intro past
    induction past using List.reverseRecOn with
    | nil => exact fun _ _ => .inl ⟨s, rfl, hs⟩
    | append_singleton past a ih =>
      intro rest split
      have split : past ++ a :: rest = as := by simpa using split
      simp only [List.foldlM_append, List.foldlM_cons, List.foldlM_nil]
      obtain ⟨t, ht, hinv⟩ | ⟨err, herr, expected⟩ := ih _ split
      · rw [ht]
        obtain ⟨u, hu, hinv⟩ | ⟨err, herr, expected⟩ := body past a rest t split hinv
        · exact .inl ⟨u, by simp [bind, Except.bind, pure, Except.pure, hu], hinv⟩
        · exact .inr ⟨err, by simp [bind, Except.bind, herr], expected⟩
      · exact .inr ⟨err, by rw [herr]; rfl, expected⟩
  exact behind as [] (List.append_nil as)

/-- A loop whose body succeeds as long as the invariant holds, and keeps it, does not stop with an
error. -/
theorem foldlM_succeeds {ε : Type*} {f : σ → α → Except ε σ} (Inv : List α → σ → Prop)
    (progress : ∀ past a rest s, past ++ a :: rest = as → Inv past s →
      ∃ t, f s a = .ok t ∧ Inv (past ++ [a]) t)
    (hs : Inv [] s) : ∃ t, as.foldlM f s = .ok t ∧ Inv as t := by
  obtain success | ⟨_, _, impossible⟩ := foldlM_stops Inv (fun _ : ε => False)
    (fun past a rest s split hinv => .inl (progress past a rest s split hinv)) hs
  · exact success
  · exact impossible.elim

/-- A list that only grows keeps what stands at an index. -/
theorem getElem?_of_prefix {l l' : List α} (grows : l <+: l') {n : ℕ} {a : α}
    (hn : l[n]? = some a) : l'[n]? = some a := by
  obtain ⟨hlt, rfl⟩ := List.getElem?_eq_some_iff.mp hn
  exact List.prefix_iff_getElem?.mp grows n hlt

/-- What stands in a list with a new last element stands in the old list or is that element. -/
theorem getElem?_snoc {l : List α} {a b : α} {i : ℕ} :
    (l ++ [a])[i]? = some b ↔ l[i]? = some b ∨ i = l.length ∧ b = a := by
  rcases lt_trichotomy i l.length with before | rfl | after
  · rw [List.getElem?_append_left before]
    simp [before.ne]
  · simp [eq_comm]
  · have beyond : (l ++ [a]).length ≤ i := by simpa using after
    simp [List.getElem?_eq_none beyond, List.getElem?_eq_none after.le, after.ne']

/-- A loop over pairs that stops at the first one under the key `k`. -/
theorem mem_of_find?_fst [DecidableEq α] {l : List (α × β)} {k : α} {entry : α × β}
    (h : l.find? (·.1 = k) = some entry) : ∃ v, entry = (k, v) ∧ (k, v) ∈ l := by
  have key : entry.1 = k := by simpa using List.find?_some h
  subst key
  exact ⟨entry.2, rfl, List.mem_of_find?_eq_some h⟩

/-! ## Loops that keep some elements

`f` is defined on fewer elements than `g`, and agrees with it up to `h`. -/

section Keeping

variable {γ : Type*} {f : α → Option β} {g : α → Option γ} {h : β → γ}

theorem length_filterMap_le (agree : ∀ x b, f x = some b → g x = some (h b)) (l : List α) :
    (l.filterMap f).length ≤ (l.filterMap g).length := by
  induction l with
  | nil => simp
  | cons x l ih =>
    simp only [List.filterMap_cons]
    cases hf : f x with
    | some b => simpa [agree x b hf] using ih
    | none =>
      cases g x with
      | none => exact ih
      | some c => exact Nat.le_succ_of_le ih

/-- They keep the same number of elements only if `f` is defined wherever `g` is. -/
theorem length_filterMap_eq_iff (agree : ∀ x b, f x = some b → g x = some (h b)) (l : List α) :
    (l.filterMap f).length = (l.filterMap g).length ↔ ∀ x ∈ l, (g x).isSome → (f x).isSome := by
  induction l with
  | nil => simp
  | cons x l ih =>
    have shorter := length_filterMap_le agree l
    rw [List.forall_mem_cons, ← ih]
    simp only [List.filterMap_cons]
    cases hf : f x with
    | some b => simp [agree x b hf]
    | none =>
      cases hg : g x with
      | none => simp
      | some c =>
        have longer : (l.filterMap f).length ≠ (l.filterMap g).length + 1 := by omega
        simpa using longer

/-- They keep the same elements, up to `h`, under the same condition. -/
theorem map_filterMap_eq_iff (agree : ∀ x b, f x = some b → g x = some (h b)) (l : List α) :
    (l.filterMap f).map h = l.filterMap g ↔ ∀ x ∈ l, (g x).isSome → (f x).isSome := by
  constructor
  · intro same
    rw [← length_filterMap_eq_iff agree, ← same, List.length_map]
  · intro defined
    rw [List.map_filterMap]
    refine List.filterMap_congr fun x hx => ?_
    cases hf : f x with
    | some b => exact (agree x b hf).symm
    | none =>
      have undefined := defined x hx
      simp only [hf, Option.isSome_none, Bool.false_eq_true, imp_false] at undefined
      exact (Option.not_isSome_iff_eq_none.mp undefined).symm

end Keeping

end Daedalus.Foundation
