import Daedalus.Foundation.Run
import Daedalus.Registry.Static

/-!
# Scores and the agent they choose

`RouteByScore` returns the first of the agents with the best score. The score adds a bonus for every
element of `Tags` that is a tag of the agent, so it does not depend on the order of `Tags`, but an
element that is listed twice counts twice.
-/
namespace Daedalus.Registry

open Foundation

/-! ## The choice -/

/-- The loop of `RouteByScore` finds no agent with a positive score, or the first of those with the
best one. -/
theorem routeBest_cases (registry : String) (request : RoutingRequest)
    (entries : List AgentEntry) :
    (∃ err, routeBest registry request entries = .error err) ∧
        (∀ e ∈ entries, score e request = 0) ∨
      ∃ before e after, entries = before ++ e :: after ∧
        routeBest registry request entries = .ok e ∧ 0 < score e request ∧
        (∀ e' ∈ entries, score e' request ≤ score e request) ∧
        ∀ e' ∈ before, score e' request < score e request := by
  have loop : ∀ best, best = entries.foldl (considerBest request) (none, 0) →
      (∀ e ∈ entries, score e request ≤ best.2) ∧
      (best = (none, 0) ∨ ∃ before e after, entries = before ++ e :: after ∧
        best = (some e, score e request) ∧ 0 < score e request ∧
        ∀ e' ∈ before, score e' request < score e request) := by
    rintro _ rfl
    refine foldl_history (fun past (best : Option AgentEntry × ℕ) =>
      (∀ e ∈ past, score e request ≤ best.2) ∧
      (best = (none, 0) ∨ ∃ before e after, past = before ++ e :: after ∧
        best = (some e, score e request) ∧ 0 < score e request ∧
        ∀ e' ∈ before, score e' request < score e request)) ?_ ⟨by simp, .inl rfl⟩
    rintro past e rest best - ⟨bound, shape⟩
    unfold considerBest
    dsimp only
    split_ifs with better
    · refine ⟨?_, .inr ⟨past, e, [], rfl, rfl, by omega, ?_⟩⟩
      · intro e' he'
        rcases List.mem_append.mp he' with hold | hnew
        · have := bound e' hold
          omega
        · rw [List.mem_singleton.mp hnew]
      · intro e' he'
        have := bound e' he'
        omega
    · refine ⟨?_, shape.imp_right ?_⟩
      · intro e' he'
        rcases List.mem_append.mp he' with hold | hnew
        · exact bound e' hold
        · rw [List.mem_singleton.mp hnew]
          omega
      · rintro ⟨before, e', after, rfl, hbest, hpos, hbefore⟩
        exact ⟨before, e', after ++ [e], by simp, hbest, hpos, hbefore⟩
  obtain ⟨bound, shape⟩ := loop _ rfl
  unfold routeBest
  generalize entries.foldl (considerBest request) (none, 0) = best at bound shape ⊢
  rcases shape with rfl | ⟨before, e, after, hentries, rfl, hpos, hbefore⟩
  · refine .inl ⟨⟨_, rfl⟩, fun e he => ?_⟩
    have := bound e he
    omega
  · exact .inr ⟨before, e, after, hentries, rfl, hpos, bound, hbefore⟩

/-- The chosen agent by its place in the list. -/
theorem routeBest_index (registry : String) (request : RoutingRequest)
    (entries : List AgentEntry) :
    (∃ err, routeBest registry request entries = .error err) ∧
        (∀ e ∈ entries, score e request = 0) ∨
      ∃ k : Fin entries.length, routeBest registry request entries = .ok (entries.get k) ∧
        0 < score (entries.get k) request ∧
        (∀ e ∈ entries, score e request ≤ score (entries.get k) request) ∧
        ∀ j < k, score (entries.get j) request < score (entries.get k) request := by
  refine (routeBest_cases registry request entries).imp_right ?_
  rintro ⟨before, e, after, rfl, hok, hpos, bound, hbefore⟩
  have hget : (before ++ e :: after).get ⟨before.length, by simp⟩ = e := by simp
  refine ⟨⟨before.length, by simp⟩, ?_, ?_, ?_, ?_⟩
  · rw [hget, hok]
  · rw [hget]
    exact hpos
  · rw [hget]
    exact bound
  · intro j hj
    have hlt : j.val < before.length := hj
    have hmem : (before ++ e :: after).get j ∈ before := by
      rw [List.get_eq_getElem, List.getElem_append_left hlt]
      exact List.getElem_mem hlt
    rw [hget]
    exact hbefore _ hmem

/-- The choice depends on the scores only. -/
theorem routeBest_congr (registry : String) {request request' : RoutingRequest}
    {entries : List AgentEntry} (same : ∀ e ∈ entries, score e request = score e request') :
    routeBest registry request entries = routeBest registry request' entries := by
  have loop : entries.foldl (considerBest request) (none, 0) =
      entries.foldl (considerBest request') (none, 0) := by
    apply List.foldl_ext
    intro best e he
    simp only [considerBest, same e he]
  rw [routeBest, routeBest, loop]

/-! ## Tags that are listed twice -/

/-- The strings that occur in `Tags` and among the tags of the agent. -/
def commonTags (entry : AgentEntry) (request : RoutingRequest) : Finset String :=
  request.tags.toFinset.filter (entry.hasTag ·)

/-- The score as its comment has it: each tag counts once. -/
def documentedScore (entry : AgentEntry) (request : RoutingRequest) : ℕ :=
  (if request.skillID ≠ "" ∧ entry.hasSkill request.skillID then 10 else 0) +
    5 * (commonTags entry request).card +
    if request.preferredRuntime ≠ "" ∧ entry.runtime = request.preferredRuntime then 1 else 0

/-- No tag of the agent is listed twice. -/
def ListedOnce (entry : AgentEntry) (request : RoutingRequest) : Prop :=
  ∀ tag ∈ request.tags, entry.hasTag tag → request.tags.count tag ≤ 1

instance (entry : AgentEntry) (request : RoutingRequest) : Decidable (ListedOnce entry request) :=
  inferInstanceAs (Decidable (∀ tag ∈ request.tags, _))

/-- Elements are counted apart from repetitions exactly when there are none. -/
theorem countP_eq_card_iff {p : String → Bool} (tags : List String) :
    tags.countP p = (tags.toFinset.filter (p ·)).card ↔
      ∀ tag ∈ tags, p tag → tags.count tag ≤ 1 := by
  have distinct : (tags.toFinset.filter (p ·)).card = (tags.filter p).dedup.length := by
    rw [← List.toFinset_filter, List.card_toFinset]
  rw [distinct, List.countP_eq_length_filter, eq_comm]
  constructor
  · intro same tag _ hp
    have nodup : (tags.filter p).Nodup :=
      List.dedup_eq_self.mp ((List.dedup_sublist _).eq_of_length same)
    have := List.nodup_iff_count_le_one.mp nodup tag
    rwa [List.count_filter hp] at this
  · intro once
    congr 1
    rw [List.dedup_eq_self, List.nodup_iff_count_le_one]
    intro tag
    by_cases hmem : tag ∈ tags.filter p
    · obtain ⟨hmem, hp⟩ := List.mem_filter.mp hmem
      rw [List.count_filter hp]
      exact once tag hmem hp
    · simp [List.count_eq_zero.mpr hmem]

theorem score_eq_documentedScore_iff (entry : AgentEntry) (request : RoutingRequest) :
    score entry request = documentedScore entry request ↔ ListedOnce entry request := by
  have counts := countP_eq_card_iff (p := entry.hasTag) request.tags
  unfold ListedOnce score documentedScore commonTags
  rw [← counts, add_left_inj, add_right_inj]
  exact mul_right_inj' (by decide)

/-- The order of the tags does not matter. -/
theorem score_perm (entry : AgentEntry) (request : RoutingRequest) {tags : List String}
    (perm : tags.Perm request.tags) :
    score entry { request with tags } = score entry request := by
  simp only [score, perm.countP_eq]

/-- Nor do repetitions, of tags that are not tags of the agent. -/
theorem score_repeated {entry : AgentEntry} {request : RoutingRequest} {tags : List String}
    (same : ∀ tag, tag ∈ tags ↔ tag ∈ request.tags) (once : ListedOnce entry request)
    (once' : ListedOnce entry { request with tags }) :
    score entry { request with tags } = score entry request := by
  rw [(score_eq_documentedScore_iff ..).mpr once, (score_eq_documentedScore_iff ..).mpr once']
  have common : commonTags entry { request with tags } = commonTags entry request := by
    ext tag
    simp [commonTags, same]
  simp only [documentedScore, common]

/-- The score of an agent is the documented one exactly when no tag of the agent is listed twice.
Permuting the tags changes neither the score nor the choice. Listing other tags more or less often
changes the score of no agent for which this holds before and after, and not the choice if it holds
for every agent. -/
theorem score_counts_once_iff (reg : Registry) (entry : AgentEntry) (request : RoutingRequest) :
    (score entry request = documentedScore entry request ↔ ListedOnce entry request) ∧
      ∀ tags,
        (tags.Perm request.tags → score entry { request with tags } = score entry request ∧
          reg.routeByScore { request with tags } = reg.routeByScore request) ∧
        ((∀ tag, tag ∈ tags ↔ tag ∈ request.tags) →
          (ListedOnce entry request → ListedOnce entry { request with tags } →
            score entry { request with tags } = score entry request) ∧
          ((∀ e ∈ reg.agents, ListedOnce e request ∧ ListedOnce e { request with tags }) →
            reg.routeByScore { request with tags } = reg.routeByScore request)) := by
  refine ⟨score_eq_documentedScore_iff entry request, fun tags => ⟨?_, ?_⟩⟩
  · intro perm
    exact ⟨score_perm entry request perm, routeBest_congr _ fun e _ => score_perm e request perm⟩
  · intro same
    refine ⟨score_repeated same, fun once => routeBest_congr _ fun e he => ?_⟩
    exact score_repeated same (once e he).1 (once e he).2

/-- An agent with one skill. -/
def sampleAgent (name skillID : String) (tags : List String) : AgentEntry where
  card := {
    name, description := "d", version := "1"
    skills := [{ id := skillID, name := "Skill", tags }] }
  queueSubject := "agent.tasks." ++ name
  runtime := "copilot"
  acpPort := 3000

/-- One agent for reviews, one that knows Go. -/
def reviewerAndGopher : Registry :=
  ⟨[sampleAgent "reviewer" "review" [], sampleAgent "gopher" "build" ["go", "test"]]⟩

theorem score_counts_once_iff_gopher :
    score (sampleAgent "gopher" "build" ["go", "test"]) { tags := ["go", "docs", "docs"] } = 5 ∧
      reviewerAndGopher.routeByScore { tags := ["docs", "go", "docs"] } =
        reviewerAndGopher.routeByScore { tags := ["go", "docs", "docs"] } ∧
      reviewerAndGopher.routeByScore { tags := ["go", "docs"] } =
        reviewerAndGopher.routeByScore { tags := ["go", "docs", "docs"] } := by
  have once := score_counts_once_iff reviewerAndGopher (sampleAgent "gopher" "build" ["go", "test"])
    { tags := ["go", "docs", "docs"] }
  refine ⟨?_, ?_, ?_⟩
  · rw [once.1.mpr (by decide)]
    decide
  · exact ((once.2 ["docs", "go", "docs"]).1 (by decide)).2
  · exact ((once.2 ["go", "docs"]).2 (by simp)).2 (by decide)

/-- A tag that is listed twice counts twice, and listed three times it outweighs the skill that was
asked for. -/
theorem score_counts_repeated :
    score (sampleAgent "gopher" "build" ["go", "test"]) { tags := ["go", "go"] } = 10 ∧
      documentedScore (sampleAgent "gopher" "build" ["go", "test"]) { tags := ["go", "go"] } = 5 ∧
      (reviewerAndGopher.routeByScore { skillID := "review", tags := ["go"] }).toOption.map
        (·.card.name) = some "reviewer" ∧
      (reviewerAndGopher.routeByScore
        { skillID := "review", tags := ["go", "go", "go"] }).toOption.map
        (·.card.name) = some "gopher" := by
  decide

end Daedalus.Registry
