import Daedalus.Registry.Dynamic
import Daedalus.Registry.Scoring
import Daedalus.Registry.Validation

/-!
# The two registries as one interface

A static registry answers in the order of its file, a dynamic one in the order of names. Since
`validate` lets no name occur twice, there is only one list that `All` can return, and every lookup
of the dynamic registry is the static one over that list.
-/
namespace Daedalus

open Foundation

/-- The order in which the dynamic registry lists agents. -/
def ByName (e e' : AgentEntry) : Prop := e.card.name ≤ e'.card.name

instance : DecidableRel ByName := fun _ _ => inferInstanceAs (Decidable (_ ≤ _))

instance : Std.Total ByName := ⟨fun e e' => le_total e.card.name e'.card.name⟩

instance : IsTrans AgentEntry ByName := ⟨fun _ _ _ h h' => le_trans h h'⟩

/-- The agents in the order of their names. -/
def sortByName (entries : List AgentEntry) : List AgentEntry := entries.insertionSort ByName

/-- The agents that share the best score, if that is positive. -/
def Registry.bestMatches (entries : List AgentEntry) (request : RoutingRequest) :
    List AgentEntry :=
  entries.filter fun e => 0 < score e request ∧ ∀ e' ∈ entries, score e' request ≤ score e request

/-! ## Sorting by distinct names -/

section Sorting

variable {entries l : List AgentEntry}

/-- With distinct names only one order is sorted. -/
theorem eq_sortByName (nodup : (entries.map (·.card.name)).Nodup) (perm : l.Perm entries)
    (sorted : l.Pairwise ByName) : l = sortByName entries := by
  have perm' : l.Perm (sortByName entries) := perm.trans (List.perm_insertionSort ..).symm
  refine List.Perm.eq_of_pairwise ?_ sorted (List.pairwise_insertionSort ..) perm'
  intro a b ha hb hab hba
  have hb : b ∈ entries := (List.perm_insertionSort ..).mem_iff.mp hb
  exact List.inj_on_of_nodup_map nodup (perm.mem_iff.mp ha) hb (le_antisymm hab hba)

theorem sortByName_filter (nodup : (entries.map (·.card.name)).Nodup) (p : AgentEntry → Bool) :
    (sortByName entries).filter p = sortByName (entries.filter p) := by
  apply eq_sortByName
  · exact nodup.sublist (List.filter_sublist.map _)
  · exact (List.perm_insertionSort ..).filter p
  · exact (List.pairwise_insertionSort ..).filter p

/-- Sorting turns no empty answer into another, nor the other way round. -/
theorem head?_sortByName_isSome (l : List AgentEntry) :
    (sortByName l).head?.isSome = l.head?.isSome := by
  have := (List.perm_insertionSort ByName l).length_eq
  rw [Bool.eq_iff_iff, List.isSome_head?, List.isSome_head?, ← List.length_pos_iff,
    ← List.length_pos_iff, sortByName, this]

end Sorting

/-! ## Routing -/

namespace Registry

theorem toOption_routeTo (registry skillID : String) (entries : List AgentEntry) :
    (routeTo registry skillID entries).toOption = entries.head?.map (·.queueSubject) := by
  cases entries <;> rfl

/-- The loop of `RouteByScore` ends with the first of the agents that share the best score. -/
theorem toOption_routeBest (registry : String) (request : RoutingRequest)
    (entries : List AgentEntry) :
    (routeBest registry request entries).toOption = (bestMatches entries request).head? := by
  obtain ⟨⟨err, herr⟩, zero⟩ | ⟨before, e, after, rfl, hok, hpos, bound, hbefore⟩ :=
    routeBest_cases registry request entries
  · have none : bestMatches entries request = [] := by
      apply List.filter_eq_nil_iff.mpr
      intro e he
      simp [zero e he]
    simp [herr, none, Except.toOption]
  · have skipped : before.filter (fun a => 0 < score a request ∧
        ∀ e' ∈ before ++ e :: after, score e' request ≤ score a request) = [] := by
      apply List.filter_eq_nil_iff.mpr
      intro a ha hbest
      have hlt := hbefore a ha
      have hle := (of_decide_eq_true hbest).2 e (by simp)
      omega
    have chosen : decide (0 < score e request ∧
        ∀ e' ∈ before ++ e :: after, score e' request ≤ score e request) = true :=
      decide_eq_true ⟨hpos, bound⟩
    rw [hok, bestMatches, List.filter_append, skipped, List.nil_append, List.filter_cons,
      if_pos chosen]
    rfl

theorem bestMatches_perm {entries l : List AgentEntry} (perm : l.Perm entries)
    (request : RoutingRequest) : bestMatches l request =
      l.filter fun e => 0 < score e request ∧
        ∀ e' ∈ entries, score e' request ≤ score e request := by
  simp only [bestMatches, perm.mem_iff]

end Registry

/-! ## The same agents in another order -/

/-- How the answers of a dynamic registry over the entries of a static one compare with those of the
static one, when `All` returns `all`. Errors are compared as such, without their texts. -/
structure Interchangeable (reg : Registry) (dr : DynamicRegistry) (all : List AgentEntry) :
    Prop where
  findByName : ∀ name, dr.findByName name = reg.findByName name
  sorted : all = sortByName reg.all
  findBySkill : ∀ skillID,
    DynamicRegistry.findBySkill all skillID = sortByName (reg.findBySkill skillID)
  findByTag : ∀ tag, DynamicRegistry.findByTag all tag = sortByName (reg.findByTag tag)
  /-- The first match of the file, and the first by name. -/
  route : ∀ skillID,
    (reg.route skillID).toOption = (reg.findBySkill skillID).head?.map (·.queueSubject) ∧
    (DynamicRegistry.route all skillID).toOption =
      (sortByName (reg.findBySkill skillID)).head?.map (·.queueSubject)
  /-- The same among the agents that share the best score. -/
  routeByScore : ∀ request,
    (reg.routeByScore request).toOption = (Registry.bestMatches reg.all request).head? ∧
    (DynamicRegistry.routeByScore all request).toOption =
      (sortByName (Registry.bestMatches reg.all request)).head?
  /-- So routing fails in the same cases, -/
  errors : (∀ skillID, (DynamicRegistry.route all skillID).toOption.isSome =
      (reg.route skillID).toOption.isSome) ∧
    ∀ request, (DynamicRegistry.routeByScore all request).toOption.isSome =
      (reg.routeByScore request).toOption.isSome
  /-- and over a file in the order of names nothing differs. -/
  inOrder : reg.all.Pairwise ByName → all = reg.all ∧
    (∀ skillID, DynamicRegistry.findBySkill all skillID = reg.findBySkill skillID) ∧
    (∀ tag, DynamicRegistry.findByTag all tag = reg.findByTag tag) ∧
    (∀ skillID, (DynamicRegistry.route all skillID).toOption = (reg.route skillID).toOption) ∧
    ∀ request, (DynamicRegistry.routeByScore all request).toOption =
      (reg.routeByScore request).toOption

/-- A static registry over a list that passes `validate`, and a dynamic registry with an empty cache
and that registry for its fallback, find the same agents for all arguments and fail in the same
cases. The dynamic one lists them in the order of their names, and routes to the first by name of
those that the static one would choose the first in the file from. -/
theorem registries_interchangeable {entries : List AgentEntry}
    (valid : Registry.validate entries = .ok ()) {all : List AgentEntry}
    (h : (DynamicRegistry.mk [] (some ⟨entries⟩)).AllReturns all) :
    Interchangeable ⟨entries⟩ ⟨[], some ⟨entries⟩⟩ all := by
  have nodup := (Registry.validate_iff_documented.mp valid).names
  have merged : (DynamicRegistry.mk [] (some ⟨entries⟩)).merged = entries := by
    simp [DynamicRegistry.merged, Registry.all]
  obtain ⟨perm, sorted⟩ := h
  rw [merged] at perm
  obtain rfl := eq_sortByName nodup perm sorted
  have best : ∀ request, Registry.bestMatches (sortByName entries) request =
      sortByName (Registry.bestMatches entries request) := by
    intro request
    rw [Registry.bestMatches_perm perm, sortByName_filter nodup]
    rfl
  have route : ∀ skillID, ((Registry.mk entries).route skillID).toOption =
      ((Registry.mk entries).findBySkill skillID).head?.map (·.queueSubject) ∧
      (DynamicRegistry.route (sortByName entries) skillID).toOption =
        (sortByName ((Registry.mk entries).findBySkill skillID)).head?.map (·.queueSubject) := by
    intro skillID
    refine ⟨Registry.toOption_routeTo .., ?_⟩
    rw [DynamicRegistry.route, Registry.toOption_routeTo, DynamicRegistry.findBySkill,
      sortByName_filter nodup]
    rfl
  have routeByScore : ∀ request, ((Registry.mk entries).routeByScore request).toOption =
      (Registry.bestMatches entries request).head? ∧
      (DynamicRegistry.routeByScore (sortByName entries) request).toOption =
        (sortByName (Registry.bestMatches entries request)).head? := by
    intro request
    refine ⟨Registry.toOption_routeBest .., ?_⟩
    rw [DynamicRegistry.routeByScore, Registry.toOption_routeBest, best]
  refine ⟨fun _ => rfl, rfl, fun _ => sortByName_filter nodup _, fun _ => sortByName_filter nodup _,
    route, routeByScore, ⟨?_, ?_⟩, ?_⟩
  · intro skillID
    rw [(route skillID).1, (route skillID).2, Option.isSome_map, Option.isSome_map,
      head?_sortByName_isSome]
  · intro request
    rw [(routeByScore request).1, (routeByScore request).2, head?_sortByName_isSome]
  · intro inOrder
    have same : sortByName entries = entries :=
      (eq_sortByName nodup (List.Perm.refl _) inOrder).symm
    rw [same]
    refine ⟨rfl, fun _ => rfl, fun _ => rfl, ?_, ?_⟩
    · intro skillID
      rw [DynamicRegistry.route, Registry.route, Registry.toOption_routeTo,
        Registry.toOption_routeTo]
      rfl
    · intro request
      rw [DynamicRegistry.routeByScore, Registry.routeByScore, Registry.toOption_routeBest,
        Registry.toOption_routeBest]

/-- Two agents with one skill, not in the order of their names. -/
def reviewerAndCoder : List AgentEntry := ["reviewer", "coder"].map fun name =>
  { card := {
      name, description := "d", version := "1"
      skills := [{ id := "code", name := "Code", tags := ["go"] }] }
    queueSubject := "agent.tasks." ++ name, runtime := "copilot", acpPort := 3000 }

theorem registries_interchangeable_two :
    Interchangeable ⟨reviewerAndCoder⟩ ⟨[], some ⟨reviewerAndCoder⟩⟩ reviewerAndCoder.reverse := by
  apply registries_interchangeable
  · have : (Registry.validate reviewerAndCoder).toOption = some () := by decide
    exact toOption_eq_some.mp this
  · decide

/-- Both lookups that route choose different agents, and the others list them in another order. -/
theorem registries_disagree :
    Registry.validate reviewerAndCoder = .ok () ∧
      (DynamicRegistry.mk [] (some ⟨reviewerAndCoder⟩)).AllReturns reviewerAndCoder.reverse ∧
      reviewerAndCoder.reverse ≠ (Registry.mk reviewerAndCoder).all ∧
      (DynamicRegistry.route reviewerAndCoder.reverse "code").toOption = some "agent.tasks.coder" ∧
      ((Registry.mk reviewerAndCoder).route "code").toOption = some "agent.tasks.reviewer" ∧
      (DynamicRegistry.routeByScore reviewerAndCoder.reverse { skillID := "code" }).toOption ≠
        ((Registry.mk reviewerAndCoder).routeByScore { skillID := "code" }).toOption := by
  refine ⟨?_, by decide, by decide, by decide, by decide, by decide⟩
  have : (Registry.validate reviewerAndCoder).toOption = some () := by decide
  exact toOption_eq_some.mp this

end Daedalus
