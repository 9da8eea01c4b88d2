import Daedalus.Foundation.Run
import Daedalus.Registry.Loader

/-!
# Which registries load

The loader goes through the agents once. Each is checked by itself, then its name and its queue
subject are compared with those seen before. The constraints are those of the documentation, no more
and no less, and a registry that was loaded can be searched by name.
-/
namespace Daedalus.Registry

open Foundation

/-! ## One agent -/

/-- The required fields of an agent, and its skills. -/
structure Complete (e : AgentEntry) : Prop where
  name : e.card.name ≠ ""
  description : e.card.description ≠ ""
  version : e.card.version ≠ ""
  queueSubject : e.queueSubject ≠ ""
  runtime : e.runtime ≠ ""
  acpPort : 0 < e.acpPort
  skills : e.card.skills ≠ []
  skill : ∀ s ∈ e.card.skills, s.id ≠ "" ∧ s.name ≠ ""

theorem require_bind {holds : Bool} {err : GoError} {rest : Unit → Except GoError Unit} :
    (require holds err >>= rest) = .ok () ↔ holds ∧ rest () = .ok () := by
  cases holds <;> simp [require, bind, Except.bind]

theorem validateSkills_ok_iff {i j : ℕ} {e : AgentEntry} {skills : List AgentSkill} :
    validateSkills i e j skills = .ok () ↔ ∀ s ∈ skills, s.id ≠ "" ∧ s.name ≠ "" := by
  induction skills generalizing j with
  | nil => simp [validateSkills]
  | cons s skills ih =>
    simp only [validateSkills, require_bind, ih, decide_eq_true_eq, List.forall_mem_cons, and_assoc]

theorem validateEntry_ok_iff {i : ℕ} {e : AgentEntry} :
    validateEntry i e = .ok () ↔ Complete e := by
  simp only [validateEntry, require_bind, validateSkills_ok_iff, decide_eq_true_eq]
  constructor
  · rintro ⟨name, description, version, queueSubject, runtime, acpPort, skills, skill⟩
    exact ⟨name, description, version, queueSubject, runtime, acpPort, skills, skill⟩
  · rintro ⟨name, description, version, queueSubject, runtime, acpPort, skills, skill⟩
    exact ⟨name, description, version, queueSubject, runtime, acpPort, skills, skill⟩

/-! ## All agents -/

/-- No key occurs twice, or was seen before. -/
def Fresh (key : AgentEntry → String) (seen : List String) (entries : List AgentEntry) : Prop :=
  (entries.map key).Nodup ∧ ∀ e ∈ entries, key e ∉ seen

/-- The key of the first agent has been seen by the others. -/
theorem fresh_cons {key : AgentEntry → String} {seen : List String} {e : AgentEntry}
    {entries : List AgentEntry} :
    Fresh key seen (e :: entries) ↔ key e ∉ seen ∧ Fresh key (key e :: seen) entries := by
  simp only [Fresh, List.map_cons, List.nodup_cons, List.mem_map, List.mem_cons, not_or]
  grind

/-- The loop, from any agent on. -/
theorem validateFrom_ok_iff {entries : List AgentEntry} {i : ℕ} {names subjects : List String} :
    validateFrom i names subjects entries = .ok () ↔
      (∀ e ∈ entries, Complete e) ∧ Fresh (·.card.name) names entries ∧
        Fresh (·.queueSubject) subjects entries := by
  induction entries generalizing i names subjects with
  | nil => simp [validateFrom, Fresh]
  | cons e entries ih =>
    have checked : validateFrom i names subjects (e :: entries) = .ok () ↔
        validateEntry i e = .ok () ∧ e.card.name ∉ names ∧ e.queueSubject ∉ subjects ∧
          validateFrom (i + 1) (e.card.name :: names) (e.queueSubject :: subjects) entries =
            .ok () := by
      simp only [validateFrom, bind_eq_ok (x := validateEntry i e), require_bind, decide_eq_true_eq,
        Unique.exists_iff, PUnit.default_eq_unit]
    rw [checked, validateEntry_ok_iff, ih, List.forall_mem_cons, fresh_cons, fresh_cons]
    tauto

/-- The constraints on a registry file that the documentation lists. -/
structure Documented (entries : List AgentEntry) : Prop where
  names : (entries.map (·.card.name)).Nodup
  subjects : (entries.map (·.queueSubject)).Nodup
  complete : ∀ e ∈ entries, Complete e

theorem validate_iff_documented {entries : List AgentEntry} :
    validate entries = .ok () ↔ Documented entries := by
  rw [validate, validateFrom_ok_iff]
  constructor
  · rintro ⟨complete, ⟨names, _⟩, subjects, _⟩
    exact ⟨names, subjects, complete⟩
  · rintro ⟨names, subjects, complete⟩
    exact ⟨complete, ⟨names, by simp⟩, subjects, by simp⟩

/-! ## Loaded registries -/

theorem loadFromReader_ok_iff {doc : Json} {reg : Registry} :
    loadFromReader doc = .ok reg ↔ decodeFile doc = .ok reg.agents ∧ Documented reg.agents := by
  unfold loadFromReader
  cases decodeFile doc with
  | error err => simp
  | ok agents =>
    simp only [bind_eq_ok, Except.ok.injEq]
    constructor
    · rintro ⟨_, valid, hreg⟩
      cases hreg
      exact ⟨rfl, validate_iff_documented.mp valid⟩
    · rintro ⟨rfl, documented⟩
      exact ⟨(), validate_iff_documented.mpr documented, rfl⟩

/-- Where no name occurs twice, the first agent of a name is the only one. -/
theorem findByName_iff {reg : Registry} (distinct : (reg.agents.map (·.card.name)).Nodup)
    {name : String} {e : AgentEntry} :
    reg.findByName name = some e ↔ e ∈ reg.agents ∧ e.card.name = name := by
  unfold findByName
  constructor
  · intro hfind
    exact ⟨List.mem_of_find?_eq_some hfind, by simpa using List.find?_some hfind⟩
  · rintro ⟨hmem, rfl⟩
    obtain ⟨e', he'⟩ : ∃ e', reg.agents.find? (·.card.name = e.card.name) = some e' := by
      rw [← Option.isSome_iff_exists, List.find?_isSome]
      exact ⟨e, hmem, by simp⟩
    have hname : e'.card.name = e.card.name := by simpa using List.find?_some he'
    rw [he', List.inj_on_of_nodup_map distinct (List.mem_of_find?_eq_some he') hmem hname]

/-- An agent is known by its name and by its queue. -/
structure Searchable (reg : Registry) : Prop where
  findByName : ∀ name e, reg.findByName name = some e ↔ e ∈ reg.agents ∧ e.card.name = name
  names : reg.agents.Pairwise (·.card.name ≠ ·.card.name)
  queues : reg.agents.Pairwise (·.queueSubject ≠ ·.queueSubject)

theorem Documented.searchable {reg : Registry} (h : Documented reg.agents) : Searchable reg where
  findByName _ _ := findByName_iff h.names
  names := List.pairwise_map.mp h.names
  queues := List.pairwise_map.mp h.subjects

/-- `validate` accepts exactly the documented lists of agents, and a file loads exactly when its
agents are such a list. In a loaded registry `FindByName` returns the only agent of the name, and no
two agents share a queue. -/
theorem loader_accepts_documented :
    (∀ entries, validate entries = .ok () ↔ Documented entries) ∧
    (∀ doc reg, loadFromReader doc = .ok reg ↔
      decodeFile doc = .ok reg.agents ∧ Documented reg.agents) ∧
    ∀ doc reg, loadFromReader doc = .ok reg → Searchable reg := by
  refine ⟨fun _ => validate_iff_documented, fun _ _ => loadFromReader_ok_iff, ?_⟩
  intro doc reg loaded
  exact (loadFromReader_ok_iff.mp loaded).2.searchable

/-- A file with two agents that differ in their names and queues. -/
def coderAndReviewer : Json := .obj [("agents", .arr (["coder", "reviewer"].map fun name =>
  .obj [
    ("card", .obj [("name", .str name), ("description", .str "d"), ("version", .str "1"),
      ("skills", .arr [.obj [("id", .str "code"), ("name", .str "Code")]])]),
    ("queueSubject", .str name), ("runtime", .str "copilot"), ("acpPort", .num 3000)]))]

theorem loader_accepts_documented_two :
    ∃ reg, loadFromReader coderAndReviewer = .ok reg ∧ reg.agents.length = 2 ∧ Searchable reg := by
  have loads : ((loadFromReader coderAndReviewer).toOption.map (·.agents.length)) = some 2 := by
    decide +kernel
  obtain ⟨reg, hreg, hlen⟩ := Option.map_eq_some_iff.mp loads
  have loaded := toOption_eq_some.mp hreg
  exact ⟨reg, loaded, hlen, loader_accepts_documented.2.2 _ reg loaded⟩

end Daedalus.Registry
