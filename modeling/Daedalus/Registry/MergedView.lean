import Daedalus.Registry.Convergence
import Daedalus.Registry.Interchange

/-!
# The merged view of the dynamic registry

`All` drops a fallback entry whose card name is a key of the map, and sorts by card name. When every
entry of the bucket was put there by `Register`, under the name on its card, keys and card names are
the same thing: no name occurs twice, and the lookups, which do not go through `All`, agree with it.
-/
namespace Daedalus

open Foundation

/-! ## The loops of the lookups -/

namespace DynamicRegistry

/-- The loop of `FindBySkill` over the skills of one agent: the first match appends the agent and
ends the loop. -/
def appendBySkill (skillID : String) (e : AgentEntry) (result : List AgentEntry) :
    List AgentSkill → List AgentEntry
  | [] => result
  | s :: skills =>
    if s.id = skillID then result ++ [e] else appendBySkill skillID e result skills

/-- The inner loop of `FindByTag` over the tags of a skill: the result and `matched`. -/
def appendByTag (tag : String) (e : AgentEntry) (result : List AgentEntry) :
    List String → List AgentEntry × Bool
  | [] => (result, false)
  | t :: tags => if t = tag then (result ++ [e], true) else appendByTag tag e result tags

/-- The loop of `FindByTag` over the skills of one agent; it ends when `matched` is set. -/
def appendByTags (tag : String) (e : AgentEntry) (result : List AgentEntry) :
    List AgentSkill → List AgentEntry
  | [] => result
  | s :: skills =>
    match appendByTag tag e result s.tags with
    | (result, true) => result
    | (result, false) => appendByTags tag e result skills

/-- `FindBySkill` as the source writes it. -/
def findBySkillLoop (all : List AgentEntry) (skillID : String) : List AgentEntry :=
  all.foldl (fun result e => appendBySkill skillID e result e.card.skills) []

/-- `FindByTag` as the source writes it. -/
def findByTagLoop (all : List AgentEntry) (tag : String) : List AgentEntry :=
  all.foldl (fun result e => appendByTags tag e result e.card.skills) []

theorem appendBySkill_eq (skillID : String) (e : AgentEntry) (result : List AgentEntry)
    (skills : List AgentSkill) :
    appendBySkill skillID e result skills =
      result ++ if skills.any (·.id = skillID) then [e] else [] := by
  induction skills with
  | nil => simp [appendBySkill]
  | cons s skills ih =>
    by_cases hs : s.id = skillID
    · simp [appendBySkill, hs]
    · simp [appendBySkill, hs, ih]

theorem appendByTag_eq (tag : String) (e : AgentEntry) (result : List AgentEntry)
    (tags : List String) :
    appendByTag tag e result tags =
      if tag ∈ tags then (result ++ [e], true) else (result, false) := by
  induction tags with
  | nil => simp [appendByTag]
  | cons t tags ih =>
    by_cases ht : t = tag
    · simp [appendByTag, ht]
    · simp [appendByTag, ht, ih, Ne.symm ht]

theorem appendByTags_eq (tag : String) (e : AgentEntry) (result : List AgentEntry)
    (skills : List AgentSkill) :
    appendByTags tag e result skills =
      result ++ if skills.any (fun s => tag ∈ s.tags) then [e] else [] := by
  induction skills with
  | nil => simp [appendByTags]
  | cons s skills ih =>
    rw [appendByTags, appendByTag_eq]
    by_cases hs : tag ∈ s.tags
    · simp [hs]
    · simp [hs, ih]

/-- A loop that appends each matching element once is a filter. -/
theorem foldl_append_eq_filter (p : AgentEntry → Bool) (all : List AgentEntry) :
    all.foldl (fun result e => result ++ if p e then [e] else []) [] = all.filter p := by
  refine foldl_history (fun past result => result = past.filter p) ?_ rfl
  rintro past e _ _ - rfl
  cases hp : p e <;> simp [hp]

/-- The loops list each matching agent once, in the order of `All`. -/
theorem findBySkillLoop_eq (all : List AgentEntry) (skillID : String) :
    findBySkillLoop all skillID = findBySkill all skillID := by
  unfold findBySkillLoop findBySkill
  simp only [appendBySkill_eq]
  exact foldl_append_eq_filter (·.hasSkill skillID) all

theorem findByTagLoop_eq (all : List AgentEntry) (tag : String) :
    findByTagLoop all tag = findByTag all tag := by
  unfold findByTagLoop findByTag
  simp only [appendByTags_eq]
  exact foldl_append_eq_filter (·.hasTag tag) all

end DynamicRegistry

/-! ## Keys are names -/

namespace Discovery

/-- `Register` puts an entry under the name on its card. -/
def register (entry : AgentEntry) : Act := .put entry.card.name (some entry)

/-- `Deregister` deletes a key. -/
def deregister (name : String) : Act := .delete name

/-- Every entry is put by `Register`. It may be removed by `Deregister`, purged, or expire. -/
def ByAgents : Act → Prop
  | .put key value => ∃ entry, Act.put key value = register entry
  | _ => True

/-- Wherever an entry is on its way from the bucket to the map, its key is its name. The fallback is
the one that was loaded. -/
structure Named (fallback : Option Registry) (s : State) : Prop where
  fallback : s.registry.fallback = fallback
  keyed : s.registry.agents.Keyed
  agents : ∀ k e, (k, e) ∈ s.registry.agents → e.card.name = k
  bucket : ∀ k e, (k, KVOp.put (some e)) ∈ s.bucket → e.card.name = k
  pending : ∀ k e, (k, KVOp.put (some e)) ∈ s.stage.pending → e.card.name = k

theorem Named.new (fallback : Option Registry) : Named fallback (.new fallback) := by
  constructor <;> simp [State.new, Table.Keyed, Stage.pending]

section Steps

variable {fallback : Option Registry} {s t : State} {a : Act}

theorem Named.write (h : Named fallback s) {key : String} {op : KVOp}
    (named : ∀ e, op = .put (some e) → e.card.name = key) : Named fallback (s.write key op) := by
  refine ⟨h.fallback, h.keyed, h.agents, ?_, ?_⟩
  · intro k e hmem
    rcases Table.mem_store.mp hmem with ⟨rfl, hop⟩ | ⟨hold, _⟩
    · exact named e hop.symm
    · exact h.bucket k e hold
  · intro k e hmem
    rw [pending_write] at hmem
    split_ifs at hmem
    · rcases List.mem_append.mp hmem with hold | hnew
      · exact h.pending k e hold
      · obtain ⟨rfl, hop⟩ := Prod.mk.inj (List.mem_singleton.mp hnew)
        exact named e hop.symm
    · exact h.pending k e hmem

/-- An entry reaches the map under its name. -/
theorem Named.store (h : Named fallback s) {key : String} {e : AgentEntry}
    (named : e.card.name = key) : Named fallback { s with
      registry := { s.registry with agents := s.registry.agents.store key e } } := by
  refine ⟨h.fallback, h.keyed.store key e, ?_, h.bucket, h.pending⟩
  intro k e' hmem
  rcases Table.mem_store.mp hmem with ⟨rfl, rfl⟩ | ⟨hold, _⟩
  · exact named
  · exact h.agents k e' hold

theorem Named.notice (h : Named fallback s) {u : String × KVOp} (named : u ∈ s.stage.pending) :
    Named fallback { s with registry := s.registry.notice u } := by
  obtain ⟨key, op⟩ := u
  cases op with
  | put value =>
    cases value with
    | none => exact h
    | some e => exact h.store (h.pending key e named)
  | delete | purge =>
    refine ⟨h.fallback, h.keyed.delete key, ?_, h.bucket, h.pending⟩
    intro k e hmem
    exact h.agents k e (Table.mem_delete.mp hmem).1

/-- Nothing but the updates of the watcher changed, and there are no new ones. -/
theorem Named.stage (h : Named fallback s) {stage : Stage}
    (sub : ∀ u ∈ stage.pending, u ∈ s.stage.pending) :
    Named fallback { s with stage } :=
  ⟨h.fallback, h.keyed, h.agents, h.bucket, fun k e hmem => h.pending k e (sub _ hmem)⟩

theorem Named.step (h : Named fallback s) (hok : ByAgents a) (hs : step s a = some t) :
    Named fallback t := by
  cases a with
  | put key value =>
    cases hs
    obtain ⟨entry, hentry⟩ := hok
    obtain ⟨rfl, rfl⟩ := Act.put.inj hentry
    refine h.write fun e he => ?_
    cases he
    rfl
  | delete key | purge key =>
    cases hs
    exact h.write (by simp)
  | expire key =>
    simp only [Discovery.step] at hs
    split_ifs at hs
    cases hs
    refine ⟨h.fallback, h.keyed, h.agents, fun k e hmem => ?_, h.pending⟩
    exact h.bucket k e (Table.mem_delete.mp hmem).1
  | keys order =>
    simp only [Discovery.step] at hs
    split_ifs at hs
    cases hs
    exact h.stage (by simp [Stage.pending])
  | get ok =>
    simp only [Discovery.step] at hs
    split at hs
    · rename_i key rest hstage
      cases hs
      have unread : Named fallback { s with stage := .syncing rest } :=
        h.stage (by simp [Stage.pending])
      cases ok with
      | false => exact unread
      | true =>
        simp only [if_true, DynamicRegistry.sync]
        split
        · rename_i e hload
          exact unread.store (h.bucket key e (Table.mem_of_load hload))
        · exact unread
    · cases hs
  | ready =>
    simp only [Discovery.step] at hs
    split_ifs at hs
    cases hs
    exact h.stage (by simp [Stage.pending])
  | watch ok =>
    simp only [Discovery.step] at hs
    split_ifs at hs
    · cases hs
      refine ⟨h.fallback, h.keyed, h.agents, h.bucket, fun k e hmem => h.bucket k e ?_⟩
      simpa [Stage.pending] using hmem
    · cases hs
      exact h
  | deliver =>
    simp only [Discovery.step] at hs
    split at hs
    · rename_i update rest hup
      cases hs
      cases update with
      | none => exact h.stage (by simp [hup, Stage.pending])
      | some u =>
        have noticed := h.notice (u := u) (by simp [hup, Stage.pending])
        exact noticed.stage (by
          intro v hv
          simp only [hup, Stage.pending, List.filterMap_cons, id_eq]
          exact List.mem_cons_of_mem _ hv)
    · cases hs
  | fail =>
    simp only [Discovery.step] at hs
    split at hs
    · cases hs
      exact h.stage (by simp [Stage.pending])
    · cases hs
  | close =>
    simp only [Discovery.step] at hs
    split at hs
    · cases hs
      exact h.stage (by simp [Stage.pending])
    · cases hs
      exact h.stage (by simp [Stage.pending])
    · cases hs

end Steps

/-! ## What the lookups agree on -/

/-- With keys that are names, and distinct names in the fallback, no name is collected twice. -/
theorem merged_names {dr : DynamicRegistry} (keyed : dr.agents.Keyed)
    (named : ∀ k e, (k, e) ∈ dr.agents → e.card.name = k)
    (distinct : ∀ reg, dr.fallback = some reg → (reg.agents.map (·.card.name)).Nodup) :
    (dr.merged.map (·.card.name)).Nodup := by
  have dynamic : (dr.agents.map (·.2)).map (·.card.name) = dr.agents.map (·.1) := by
    rw [List.map_map]
    exact List.map_congr_left fun u hu => named u.1 u.2 hu
  have static : ((dr.fallback.elim [] Registry.all).map (·.card.name)).Nodup := by
    cases hf : dr.fallback with
    | none => simp
    | some reg => exact distinct reg hf
  unfold DynamicRegistry.merged
  rw [List.map_append, dynamic]
  refine List.Nodup.append keyed (static.sublist (List.filter_sublist.map _)) ?_
  intro name hkey hstatic
  obtain ⟨e, he, rfl⟩ := List.mem_map.mp hstatic
  exact (of_decide_eq_true (List.mem_filter.mp he).2) hkey

/-- What `All` returned, and the other lookups. -/
structure MergedView (dr : DynamicRegistry) (all : List AgentEntry) : Prop where
  sorted : all.Pairwise fun e e' => e.card.name < e'.card.name
  mem : ∀ e, e ∈ all ↔ (∃ k, dr.agents.load k = some e) ∨
    ∃ reg, dr.fallback = some reg ∧ e ∈ reg.agents ∧ dr.agents.load e.card.name = none
  findByName : ∀ name e, dr.findByName name = some e ↔ e ∈ all ∧ e.card.name = name
  findBySkill : ∀ skillID,
    DynamicRegistry.findBySkillLoop all skillID = all.filter (·.hasSkill skillID)
  findByTag : ∀ tag, DynamicRegistry.findByTagLoop all tag = all.filter (·.hasTag tag)

/-- `FindByName` asks the map and then the fallback; both know an agent by its name. -/
theorem findByName_iff {dr : DynamicRegistry} (keyed : dr.agents.Keyed)
    (named : ∀ k e, (k, e) ∈ dr.agents → e.card.name = k)
    (distinct : ∀ reg, dr.fallback = some reg → (reg.agents.map (·.card.name)).Nodup)
    (name : String) (e : AgentEntry) :
    dr.findByName name = some e ↔ ((∃ k, dr.agents.load k = some e) ∨
      ∃ reg, dr.fallback = some reg ∧ e ∈ reg.agents ∧ dr.agents.load e.card.name = none) ∧
        e.card.name = name := by
  have names : ∀ k e, dr.agents.load k = some e → e.card.name = k := fun k e hload =>
    named k e (keyed.load_iff.mp hload)
  unfold DynamicRegistry.findByName
  cases hload : dr.agents.load name with
  | some e' =>
    simp only [Option.some.injEq]
    constructor
    · rintro rfl
      exact ⟨.inl ⟨name, hload⟩, names name e' hload⟩
    · rintro ⟨⟨k, hk⟩ | ⟨reg, _, _, hnone⟩, rfl⟩
      · obtain rfl := names k e hk
        exact Option.some.inj (hload.symm.trans hk)
      · simp [hload] at hnone
  | none =>
    simp only [Option.bind_eq_some_iff]
    constructor
    · rintro ⟨reg, hreg, hfind⟩
      obtain ⟨hmem, rfl⟩ := (Registry.findByName_iff (distinct reg hreg)).mp hfind
      exact ⟨.inr ⟨reg, hreg, hmem, hload⟩, rfl⟩
    · rintro ⟨⟨k, hk⟩ | ⟨reg, hreg, hmem, _⟩, rfl⟩
      · rw [names k e hk, hk] at hload
        cases hload
      · exact ⟨reg, hreg, (Registry.findByName_iff (distinct reg hreg)).mpr ⟨hmem, rfl⟩⟩

/-- In every state that a registry reaches while agents register and deregister, over a fallback
that passes `validate` or none, there is one list that `All` can return. It is strictly sorted by
name and has the cached agents and the fallback agents of other names. `FindByName` finds an agent
of that list exactly by its name, and `FindBySkill` and `FindByTag` list its matching agents. -/
theorem merged_view {fallback : Option Registry}
    (loaded : ∀ reg, fallback = some reg → Registry.validate reg.agents = .ok ())
    {acts : List Act} (agents : ∀ a ∈ acts, ByAgents a) {s : State}
    (h : run step (.new fallback) acts = some s) :
    (∃! all, s.registry.AllReturns all) ∧
      ∀ all, s.registry.AllReturns all → MergedView s.registry all := by
  have named : Named fallback s := by
    have meets : Meets step (fun _ a => ByAgents a) (.new fallback) acts := .of_forall agents
    exact meets.invariant (Named fallback) (fun _ _ _ hs hok hstep => hs.step hok hstep) h
      (.new fallback)
  have distinct : ∀ reg, s.registry.fallback = some reg →
      (reg.agents.map (·.card.name)).Nodup := by
    intro reg hreg
    exact (Registry.validate_iff_documented.mp (loaded reg (named.fallback ▸ hreg))).names
  have nodup := merged_names named.keyed named.agents distinct
  constructor
  · obtain ⟨all, hall⟩ := exists_allReturns s.registry
    refine ⟨all, hall, fun all' hall' => ?_⟩
    rw [eq_sortByName nodup hall.1 hall.2, eq_sortByName nodup hall'.1 hall'.2]
  · intro all hall
    have mem := (serves_of_load named.keyed fun _ => rfl).all all hall
    have once : (all.map (·.card.name)).Nodup := (hall.1.map _).nodup_iff.mpr nodup
    refine ⟨?_, mem, ?_, fun skillID => ?_, fun tag => ?_⟩
    · have apart : all.Pairwise fun e e' => e.card.name ≠ e'.card.name := List.pairwise_map.mp once
      exact (hall.2.and apart).imp fun hle => lt_of_le_of_ne hle.1 hle.2
    · intro name e
      rw [mem, findByName_iff named.keyed named.agents distinct]
    · exact DynamicRegistry.findBySkillLoop_eq all skillID
    · exact DynamicRegistry.findByTagLoop_eq all tag

/-- A fallback with two agents. The coder registers with another subject, a tester registers and
leaves again. -/
def coderMoves : List Act := started ++ [
  register { agent "coder" with queueSubject := "agent.tasks.moved" }, register (agent "tester"),
  .deliver, .deliver, deregister "tester", .deliver]

theorem merged_view_coderMoves :
    ∃ s, run step (.new (some ⟨[agent "reviewer", agent "coder"]⟩)) coderMoves = some s ∧
      s.registry.findByName "coder" =
        some { agent "coder" with queueSubject := "agent.tasks.moved" } ∧
      s.registry.findByName "tester" = none ∧
      MergedView s.registry
        [{ agent "coder" with queueSubject := "agent.tasks.moved" }, agent "reviewer"] := by
  have observed : (run step (.new (some ⟨[agent "reviewer", agent "coder"]⟩)) coderMoves).map
      (fun s => (s.registry.findByName "coder", s.registry.findByName "tester",
        decide (s.registry.AllReturns
          [{ agent "coder" with queueSubject := "agent.tasks.moved" }, agent "reviewer"]))) =
      some (some { agent "coder" with queueSubject := "agent.tasks.moved" }, none, true) := by
    decide +kernel
  obtain ⟨s, hs, e⟩ := Option.map_eq_some_iff.mp observed
  simp only [Prod.mk.injEq, decide_eq_true_iff] at e
  obtain ⟨hcoder, htester, hall⟩ := e
  have loaded : (Registry.validate [agent "reviewer", agent "coder"]).toOption = some () := by
    decide +kernel
  refine ⟨s, hs, hcoder, htester, (merged_view ?_ ?_ hs).2 _ hall⟩
  · rintro reg ⟨⟩
    exact toOption_eq_some.mp loaded
  · simp [coderMoves, started, ByAgents, register, deregister]

end Discovery

end Daedalus
