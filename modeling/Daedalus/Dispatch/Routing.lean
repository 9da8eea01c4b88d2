import Daedalus.Dispatch.Dispatcher
import Daedalus.Registry.Scoring
import Daedalus.Registry.Validation

/-!
# Where a task with a skill is sent

`Dispatch` asks the registry for the agent with the best score. The skill of the task is worth two
of its tags, so an agent that matches enough tags is preferred to one that has the skill, and is
chosen also when no agent has it.
-/
namespace Daedalus.Dispatch

open A2A

/-- The dispatcher over a static registry. -/
def overRegistry (reg : Registry) (generateID : Except GoError String)
    (publishJSON : String → SendMessageRequest → Option GoError) : DispatchEnv where
  generateID := generateID
  routeByScore skillID tags := (reg.routeByScore { skillID, tags }).map (·.queueSubject)
  publishJSON := publishJSON

/-- A task goes to an agent that declares its skill. If there is none, nothing is published and
`Dispatch` fails. -/
structure RespectsSkill (reg : Registry) (spec : TaskSpec)
    (outcome : List (String × SendMessageRequest) × Except GoError (String × String)) : Prop where
  published : ∀ subject req, (subject, req) ∈ outcome.1 →
    ∃ e ∈ reg.agents, e.hasSkill spec.skillID ∧ e.queueSubject = subject
  undeclared : (∀ e ∈ reg.agents, ¬ e.hasSkill spec.skillID) →
    outcome.1 = [] ∧ ∃ err, outcome.2 = .error err

/-- How many of the listed tags are tags of the agent. -/
def matchingTags (spec : TaskSpec) (e : AgentEntry) : ℕ := spec.tags.countP (e.hasTag ·)

/-- Every agent that matches a tag but lacks the skill has a rival with the skill: one that matches
less than two tags fewer, or two tags fewer and is listed before it. -/
def Outweighed (reg : Registry) (spec : TaskSpec) : Prop :=
  ∀ i : Fin reg.agents.length, (reg.agents.get i).hasSkill spec.skillID = false →
    0 < matchingTags spec (reg.agents.get i) →
    ∃ j : Fin reg.agents.length, (reg.agents.get j).hasSkill spec.skillID = true ∧
      (matchingTags spec (reg.agents.get i) < matchingTags spec (reg.agents.get j) + 2 ∨
        matchingTags spec (reg.agents.get i) = matchingTags spec (reg.agents.get j) + 2 ∧ j < i)

instance (reg : Registry) (spec : TaskSpec) : Decidable (Outweighed reg spec) :=
  inferInstanceAs (Decidable (∀ _ : Fin reg.agents.length, _))

section Choice

variable {reg : Registry} {spec : TaskSpec}

theorem score_of_skill (named : spec.skillID ≠ "") {e : AgentEntry}
    (h : e.hasSkill spec.skillID = true) :
    Registry.score e { skillID := spec.skillID, tags := spec.tags } =
      10 + 5 * matchingTags spec e := by
  simp [Registry.score, named, h, matchingTags]

theorem score_of_no_skill {e : AgentEntry} (h : e.hasSkill spec.skillID = false) :
    Registry.score e { skillID := spec.skillID, tags := spec.tags } = 5 * matchingTags spec e := by
  simp [Registry.score, h, matchingTags]

/-- The chosen agent has the skill when all others are outweighed. -/
theorem Outweighed.chosen (named : spec.skillID ≠ "") (h : Outweighed reg spec) {e : AgentEntry}
    (hok : reg.routeByScore { skillID := spec.skillID, tags := spec.tags } = .ok e) :
    e ∈ reg.agents ∧ e.hasSkill spec.skillID := by
  unfold Registry.routeByScore at hok
  obtain ⟨⟨err, herr⟩, _⟩ | ⟨k, hk, hpos, bound, earlier⟩ :=
    Registry.routeBest_index "registry" { skillID := spec.skillID, tags := spec.tags } reg.agents
  · rw [herr] at hok
    cases hok
  obtain rfl : reg.agents.get k = e := Except.ok.inj (hk.symm.trans hok)
  refine ⟨List.get_mem reg.agents k, ?_⟩
  by_contra hskill
  simp only [Bool.not_eq_true] at hskill
  rw [score_of_no_skill hskill] at hpos bound earlier
  obtain ⟨j, hj, hless | ⟨heq, hjk⟩⟩ := h k hskill (by omega)
  · have := bound _ (List.get_mem reg.agents j)
    rw [score_of_skill named hj] at this
    omega
  · have := earlier j hjk
    rw [score_of_skill named hj] at this
    omega

/-- An agent that is not outweighed is chosen, or another one without the skill is. -/
theorem chosen_of_not_outweighed (named : spec.skillID ≠ "") (h : ¬ Outweighed reg spec) :
    ∃ e ∈ reg.agents, reg.routeByScore { skillID := spec.skillID, tags := spec.tags } = .ok e ∧
      e.hasSkill spec.skillID = false := by
  unfold Outweighed at h
  push Not at h
  obtain ⟨i, hskill, hpos, rivals⟩ := h
  have hscore := score_of_no_skill hskill
  obtain ⟨_, zero⟩ | ⟨k, hk, _, bound, earlier⟩ :=
    Registry.routeBest_index "registry" { skillID := spec.skillID, tags := spec.tags } reg.agents
  · have := zero _ (List.get_mem reg.agents i)
    omega
  refine ⟨reg.agents.get k, List.get_mem reg.agents k, hk, ?_⟩
  by_contra hskilled
  simp only [Bool.not_eq_false] at hskilled
  -- An agent with the skill that is chosen has the same score, so it is listed before.
  obtain ⟨hmore, hlater⟩ := rivals k hskilled
  have hbound := bound _ (List.get_mem reg.agents i)
  rw [hscore, score_of_skill named hskilled] at hbound
  have hle := hlater (by omega)
  have hne : i ≠ k := by
    rintro rfl
    exact Bool.noConfusion (hskill.symm.trans hskilled)
  have := earlier i (lt_of_le_of_ne hle hne)
  rw [hscore, score_of_skill named hskilled] at this
  omega

end Choice

/-- A loaded registry sends a task with a skill to an agent that declares the skill, and refuses the
task when there is none, exactly when each agent that only matches tags is outweighed. -/
theorem respects_skill_iff {entries : List AgentEntry} (loaded : Registry.validate entries = .ok ())
    {spec : TaskSpec} (named : spec.skillID ≠ "") :
    (∀ generateID publishJSON contextID, RespectsSkill ⟨entries⟩ spec
      (dispatch (overRegistry ⟨entries⟩ generateID publishJSON) spec contextID)) ↔
      Outweighed ⟨entries⟩ spec := by
  constructor
  · intro respects
    by_contra hout
    obtain ⟨e, he, hok, hskill⟩ := chosen_of_not_outweighed named hout
    have right := respects (.ok "0") (fun _ _ => none) ""
    have published : ∃ req, (e.queueSubject, req) ∈
        (dispatch (overRegistry ⟨entries⟩ (.ok "0") fun _ _ => none) spec "").1 := by
      by_cases given : spec.id = ""
      · exact ⟨buildRequest spec "0" "", by simp [dispatch, chooseID, overRegistry, hok, given,
          Except.map]⟩
      · exact ⟨buildRequest spec spec.id "", by simp [dispatch, chooseID, overRegistry, hok, given,
          Except.map]⟩
    obtain ⟨req, hreq⟩ := published
    obtain ⟨e', he', hskill', hsubject⟩ := right.published _ _ hreq
    have distinct := (Registry.validate_iff_documented.mp loaded).subjects
    obtain rfl := List.inj_on_of_nodup_map distinct he' he hsubject
    simp [hskill] at hskill'
  · intro out generateID publishJSON contextID
    refine ⟨?_, ?_⟩
    · intro subject req hreq
      have routed := dispatch_routed hreq
      simp only [overRegistry] at routed
      cases hok : (Registry.mk entries).routeByScore
          { skillID := spec.skillID, tags := spec.tags } with
      | error err => simp [hok, Except.map] at routed
      | ok e =>
        obtain ⟨he, hskill⟩ := out.chosen named hok
        exact ⟨e, he, hskill, by simpa [hok, Except.map] using routed⟩
    · intro none
      cases hok : (Registry.mk entries).routeByScore
          { skillID := spec.skillID, tags := spec.tags } with
      | error err =>
        have unrouted : (overRegistry ⟨entries⟩ generateID publishJSON).routeByScore spec.skillID
            spec.tags = .error err := by
          simp [overRegistry, hok, Except.map]
        exact dispatch_unrouted unrouted contextID
      | ok e =>
        obtain ⟨he, hskill⟩ := out.chosen named hok
        exact absurd hskill (none e he)

/-- Two agents: one has the skill, the other only tags. -/
def coderAndWriter : List AgentEntry :=
  [Registry.sampleAgent "coder" "code" ["go"],
    Registry.sampleAgent "writer" "write" ["go", "docs", "style", "markdown"]]

theorem coderAndWriter_loaded : Registry.validate coderAndWriter = .ok () := by
  have : (Registry.validate coderAndWriter).toOption = some () := by decide
  exact Foundation.toOption_eq_some.mp this

/-- The agent with the skill is listed first, so that it wins with two tags fewer. -/
theorem respects_skill_iff_coder :
    RespectsSkill ⟨coderAndWriter⟩ { skillID := "code", tags := ["go", "docs", "style"] }
      (dispatch (overRegistry ⟨coderAndWriter⟩ (.ok "0") fun _ _ => none)
        { skillID := "code", tags := ["go", "docs", "style"] } "") :=
  (respects_skill_iff coderAndWriter_loaded (by decide)).mpr (by decide) (.ok "0")
    (fun _ _ => none) ""

/-- With three tags more an agent without the skill gets the task, and with one tag it gets a task
whose skill nobody declares. -/
theorem tags_outweigh_skill :
    Registry.validate coderAndWriter = .ok () ∧
      (∀ e ∈ coderAndWriter, e.queueSubject = "agent.tasks.writer" → ¬ e.hasSkill "code") ∧
      (dispatch (overRegistry ⟨coderAndWriter⟩ (.ok "0") fun _ _ => none)
        { id := "t", skillID := "code", tags := ["docs", "style", "markdown"] } "").2.toOption =
          some ("t", "agent.tasks.writer") ∧
      (∀ e ∈ coderAndWriter, ¬ e.hasSkill "deploy") ∧
      (dispatch (overRegistry ⟨coderAndWriter⟩ (.ok "0") fun _ _ => none)
        { id := "t", skillID := "deploy", tags := ["docs"] } "").2.toOption =
          some ("t", "agent.tasks.writer") ∧
      ¬ RespectsSkill ⟨coderAndWriter⟩ { id := "t", skillID := "deploy", tags := ["docs"] }
        (dispatch (overRegistry ⟨coderAndWriter⟩ (.ok "0") fun _ _ => none)
          { id := "t", skillID := "deploy", tags := ["docs"] } "") := by
  refine ⟨coderAndWriter_loaded, by decide, by decide, by decide, by decide, fun right => ?_⟩
  obtain ⟨_, err, herr⟩ := right.undeclared (by decide)
  have sent : (dispatch (overRegistry ⟨coderAndWriter⟩ (.ok "0") fun _ _ => none)
      { id := "t", skillID := "deploy", tags := ["docs"] } "").2.toOption =
        some ("t", "agent.tasks.writer") := by
    decide
  simp [herr, Except.toOption] at sent

end Daedalus.Dispatch
