import Daedalus.Foundation.Run
import Daedalus.Operator.Manifest
import Daedalus.Registry.Loader

/-!
# The registry ConfigMap and the registry loader

The operator writes the entry of one agent as a document of its own. The loader reads a document
with an `agents` array. The entry reads back as intended when it stands in such an array; by itself
it is a document without agents, which is accepted and loads nothing.
-/
namespace Daedalus.Operator

open Foundation Json Registry

/-! ## Reading an entry back -/

def readSkill (s : SkillSpec) : AgentSkill where
  id := s.id
  name := s.name
  description := s.description
  tags := s.tags
  examples := s.examples

def readCapabilities (c : Option CapabilitiesSpec) : AgentCapabilities :=
  match c with
  | some c => { streaming := c.streaming, pushNotifications := c.pushNotifications }
  | none => {}

/-- The card that an inline card stands for. -/
def readCard (c : AgentCardInline) : AgentCard where
  name := c.name
  description := c.description
  version := c.version
  defaultInputModes := c.defaultInputModes
  defaultOutputModes := c.defaultOutputModes
  skills := c.skills.map readSkill
  capabilities := readCapabilities c.capabilities

/-- The entry that a runtime with an inline card stands for. -/
def readEntry (rt : AgentRuntime) (card : AgentCardInline) : AgentEntry where
  card := readCard card
  queueSubject := rt.spec.queue.subject
  runtime := rt.spec.type
  acpPort := a2aPort rt

section Fields

variable {members : List (String × Json)} {name : String}

theorem field_str {s : String} (h : values members name = [.str s]) :
    field members name (toStr mismatch) = .ok s := by
  rw [field, h]
  rfl

theorem field_omitted {s : String}
    (h : values members name = if s ≠ "" then [.str s] else []) :
    field members name (toStr mismatch) = .ok s := by
  split_ifs at h with hs
  · exact field_str h
  · rw [field, h, not_not.mp hs]
    rfl

theorem field_list {α β : Type} {encode : α → Json} {decode : List Json → Except GoError β}
    {f : α → β} {xs : List α}
    (h : values members name = if xs ≠ [] then [.arr (xs.map encode)] else [])
    (each : ∀ x ∈ xs, decode [encode x] = .ok (f x)) :
    field members name (toList mismatch decode) = .ok (xs.map f) := by
  split_ifs at h with hxs
  · rw [field, h]
    exact toList_map each
  · rw [field, h, not_not.mp hxs]
    rfl

theorem field_strings {ss : List String}
    (h : values members name = if ss ≠ [] then [.arr (ss.map .str)] else []) :
    field members name decodeStrings = .ok ss := by
  simpa [decodeStrings] using field_list h (f := id) fun s _ => toStr_singleton mismatch s

end Fields

section Skills

variable (s : SkillSpec)

theorem find_skill {name : String} (h : name ∈ ["id", "name", "description", "tags", "examples"]) :
    values (skillMembers s) name = ((skillMembers s).lookup name).toList := by
  have keys : ((skillMembers s).map (·.1)).Sublist
      (["id", "name", "description"] ++ ["tags"] ++ ["examples"]) := by
    simp only [skillMembers, List.map_append]
    exact ((List.Sublist.refl _).append (keys_omitNil _ _)).append (keys_omitNil _ _)
  exact values_eq_lookup _ (by decide) (by decide) keys h

theorem decode_skill : decodeSkill [encodeSkill s] = .ok (readSkill s) := by
  have hid : values (skillMembers s) "id" = [.str s.id] := find_skill s (by simp)
  have hname : values (skillMembers s) "name" = [.str s.name] := find_skill s (by simp)
  have hdescription : values (skillMembers s) "description" = [.str s.description] :=
    find_skill s (by simp)
  have htags : values (skillMembers s) "tags" =
      if s.tags ≠ [] then [.arr (s.tags.map .str)] else [] := by
    rw [find_skill s (by simp)]
    by_cases ht : s.tags = [] <;> simp [skillMembers, List.lookup_append, List.lookup_cons, ht]
  have hexamples : values (skillMembers s) "examples" =
      if s.examples ≠ [] then [.arr (s.examples.map .str)] else [] := by
    rw [find_skill s (by simp)]
    by_cases he : s.examples = [] <;>
      simp [skillMembers, List.lookup_append, List.lookup_cons, he]
  refine bind_eq_ok.mpr ⟨skillMembers s, rfl, bind_eq_ok.mpr ⟨s.id, field_str hid, ?_⟩⟩
  refine bind_eq_ok.mpr ⟨s.name, field_str hname, ?_⟩
  refine bind_eq_ok.mpr ⟨s.description, field_str hdescription, ?_⟩
  refine bind_eq_ok.mpr ⟨s.tags, field_strings htags, ?_⟩
  exact bind_eq_ok.mpr ⟨s.examples, field_strings hexamples, rfl⟩

end Skills

section Cards

variable (c : AgentCardInline)

def cardFields : List String :=
  ["name", "description", "version", "skills", "defaultInputModes", "defaultOutputModes",
    "capabilities"]

theorem find_card {name : String} (h : name ∈ cardFields) :
    values (cardMembers c) name = ((cardMembers c).lookup name).toList := by
  have keys : ((cardMembers c).map (·.1)).Sublist (["name", "description"] ++ ["version"] ++
      ["skills"] ++ ["defaultInputModes"] ++ ["defaultOutputModes"] ++ ["capabilities"]) := by
    simp only [cardMembers, List.map_append]
    exact (((((List.Sublist.refl _).append (keys_omitEmpty _)).append (keys_omitNil _ _)).append
      (keys_omitNil _ _)).append (keys_omitNil _ _)).append (keys_omitNone _ _)
  exact values_eq_lookup _ (by decide) (by decide) keys h

theorem decode_capabilities (caps : CapabilitiesSpec) :
    decodeCapabilities [encodeCapabilities caps] = .ok (readCapabilities (some caps)) := by
  have find : ∀ name ∈ ["streaming", "pushNotifications"], ∀ members,
      encodeCapabilities caps = .obj members →
        values members name = (members.lookup name).toList := by
    rintro name hname _ ⟨⟩
    exact values_eq_lookup ["streaming", "pushNotifications"] (by decide) (by decide)
      (List.Sublist.refl _) hname
  refine bind_eq_ok.mpr ⟨_, rfl, bind_eq_ok.mpr ⟨caps.streaming, ?_, ?_⟩⟩
  · rw [field, List.nil_append, find "streaming" (by simp) _ rfl]
    rfl
  · refine bind_eq_ok.mpr ⟨caps.pushNotifications, ?_, rfl⟩
    rw [field, List.nil_append, find "pushNotifications" (by simp) _ rfl]
    rfl

theorem decode_card : decodeCard [encodeCard c] = .ok (readCard c) := by
  have hname : values (cardMembers c) "name" = [.str c.name] := find_card c (by decide)
  have hdescription : values (cardMembers c) "description" = [.str c.description] :=
    find_card c (by decide)
  have hversion : values (cardMembers c) "version" =
      if c.version ≠ "" then [.str c.version] else [] := by
    rw [find_card c (by decide)]
    by_cases hv : c.version = "" <;> simp [cardMembers, List.lookup_append, List.lookup_cons, hv]
  have hskills : values (cardMembers c) "skills" =
      if c.skills ≠ [] then [.arr (c.skills.map encodeSkill)] else [] := by
    rw [find_card c (by decide)]
    by_cases hs : c.skills = [] <;> simp [cardMembers, List.lookup_append, List.lookup_cons, hs]
  have hinput : values (cardMembers c) "defaultInputModes" =
      if c.defaultInputModes ≠ [] then [.arr (c.defaultInputModes.map .str)] else [] := by
    rw [find_card c (by decide)]
    by_cases hm : c.defaultInputModes = [] <;>
      simp [cardMembers, List.lookup_append, List.lookup_cons, hm]
  have houtput : values (cardMembers c) "defaultOutputModes" =
      if c.defaultOutputModes ≠ [] then [.arr (c.defaultOutputModes.map .str)] else [] := by
    rw [find_card c (by decide)]
    by_cases hm : c.defaultOutputModes = [] <;>
      simp [cardMembers, List.lookup_append, List.lookup_cons, hm]
  have hcapabilities : values (cardMembers c) "capabilities" =
      (c.capabilities.map encodeCapabilities).toList := by
    rw [find_card c (by decide)]
    simp [cardMembers, List.lookup_append, List.lookup_cons]
  refine bind_eq_ok.mpr ⟨cardMembers c, rfl, bind_eq_ok.mpr ⟨c.name, field_str hname, ?_⟩⟩
  refine bind_eq_ok.mpr ⟨c.description, field_str hdescription, ?_⟩
  refine bind_eq_ok.mpr ⟨c.version, field_omitted hversion, ?_⟩
  refine bind_eq_ok.mpr ⟨c.defaultInputModes, field_strings hinput, ?_⟩
  refine bind_eq_ok.mpr ⟨c.defaultOutputModes, field_strings houtput, ?_⟩
  refine bind_eq_ok.mpr ⟨c.skills.map readSkill, field_list hskills fun s _ => decode_skill s, ?_⟩
  refine bind_eq_ok.mpr ⟨readCapabilities c.capabilities, ?_, rfl⟩
  rw [field, hcapabilities]
  cases c.capabilities with
  | none => rfl
  | some caps => exact decode_capabilities caps

end Cards

section Entries

variable {rt : AgentRuntime} {card : AgentCardInline}

def entryFields : List String :=
  ["card", "queueSubject", "runtime", "acpPort", "contextManagement"]

theorem keys_registry (rt : AgentRuntime) :
    ((registryMembers rt).map (·.1)).Sublist entryFields := by
  simp only [registryMembers, List.map_append]
  exact (List.Sublist.refl ["card", "queueSubject", "runtime", "acpPort"]).append
    (keys_omitNone _ _)

theorem decode_entry (h : rt.spec.agentCard = some card) (port : IsInt (a2aPort rt)) :
    decodeEntry [buildRegistryJSON rt] = .ok (readEntry rt card) := by
  have find : ∀ name ∈ entryFields,
      values (registryMembers rt) name = ((registryMembers rt).lookup name).toList :=
    fun name hname => values_eq_lookup _ (by decide) (by decide) (keys_registry rt) hname
  have hcard : values (registryMembers rt) "card" = [encodeCard card] := by
    rw [find _ (by decide)]
    simp [registryMembers, registryCard, h]
  have hport : values (registryMembers rt) "acpPort" = [.num (a2aPort rt)] :=
    find "acpPort" (by decide)
  refine bind_eq_ok.mpr ⟨registryMembers rt, rfl, bind_eq_ok.mpr ⟨readCard card, ?_, ?_⟩⟩
  · rw [field, hcard]
    exact decode_card card
  refine bind_eq_ok.mpr ⟨_, field_str (find "queueSubject" (by decide)), ?_⟩
  refine bind_eq_ok.mpr ⟨_, field_str (find "runtime" (by decide)), ?_⟩
  refine bind_eq_ok.mpr ⟨a2aPort rt, ?_, rfl⟩
  rw [field, hport]
  exact toInt_singleton mismatch port

/-- In the documented format the entry loads as the one agent of the registry. -/
theorem loadFromReader_wrapped (h : rt.spec.agentCard = some card) (port : IsInt (a2aPort rt))
    (valid : validateEntry 0 (readEntry rt card) = .ok ()) :
    loadFromReader (.obj [("agents", .arr [buildRegistryJSON rt])]) =
      .ok { agents := [readEntry rt card] } := by
  have hfile : values [("agents", .arr [buildRegistryJSON rt])] "agents" =
      [.arr [buildRegistryJSON rt]] :=
    values_eq_lookup ["agents"] (by decide) (by decide) (List.Sublist.refl _) (by simp)
  have hdecode : decodeFile (.obj [("agents", .arr [buildRegistryJSON rt])]) =
      .ok [readEntry rt card] := by
    refine bind_eq_ok.mpr ⟨_, rfl, ?_⟩
    rw [field, List.nil_append, hfile]
    have each : ∀ rt' ∈ [rt], decodeEntry [buildRegistryJSON rt'] = .ok (readEntry rt' card) := by
      simpa using decode_entry h port
    exact toList_map each
  have hvalid : validate [readEntry rt card] = .ok () := by
    refine bind_eq_ok.mpr ⟨(), valid, ?_⟩
    simp [require, validateFrom]
    rfl
  simp only [loadFromReader, hdecode, hvalid]
  rfl

/-- What is written loads without error, and nothing is loaded. -/
theorem loadFromReader_registry (rt : AgentRuntime) :
    loadFromReader (buildRegistryJSON rt) = .ok { agents := [] } := by
  have hfile : values (registryMembers rt) "agents" = [] := by
    refine values_eq_nil fun m hm => ?_
    have hkey : m.1 ∈ entryFields := (keys_registry rt).subset (List.mem_map_of_mem hm)
    have others : ∀ key ∈ entryFields, ¬ matchesField "agents" key := by decide
    exact others m.1 hkey
  have hdecode : decodeFile (buildRegistryJSON rt) = .ok [] := by
    refine bind_eq_ok.mpr ⟨registryMembers rt, rfl, ?_⟩
    rw [field, hfile]
    rfl
  simp only [loadFromReader, hdecode]
  rfl

end Entries

/-- The loader reads what the operator wrote for the runtime as one agent with the card's name,
description, version, skills and tags, and with the queue subject, type and port of the runtime. -/
def Readable (rt : AgentRuntime) (card : AgentCardInline) : Prop :=
  ∃ reg e, loadFromReader (buildRegistryJSON rt) = .ok reg ∧ reg.all = [e] ∧
    e.card.name = card.name ∧ e.card.description = card.description ∧
    e.card.version = card.version ∧ e.card.skills = card.skills.map readSkill ∧
    e.queueSubject = rt.spec.queue.subject ∧ e.runtime = rt.spec.type ∧ e.acpPort = a2aPort rt

theorem unreadable_of_empty {rt : AgentRuntime} {card : AgentCardInline}
    (h : loadFromReader (buildRegistryJSON rt) = .ok { agents := [] }) : ¬ Readable rt card := by
  rintro ⟨reg, e, hload, hall, -⟩
  rw [h] at hload
  cases hload
  cases hall

/-- No runtime is readable. -/
theorem registry_never_readable (rt : AgentRuntime) (card : AgentCardInline) :
    ¬ Readable rt card :=
  unreadable_of_empty (loadFromReader_registry rt)

def coderCard : AgentCardInline where
  name := "coder"
  description := "writes code"
  version := "1.0.0"
  skills := [{ id := "code", name := "Code", tags := ["go"] }]

/-- A runtime with everything that the loader asks of an entry. -/
def coder : AgentRuntime where
  name := "coder"
  ns := "agents"
  uid := "u1"
  spec :=
    { container := { image := "coder:v1" }
      queue := { subject := "agent.tasks.coder" }
      agentCard := some coderCard }

theorem registry_unreadable_coder : coder.spec.agentCard = some coderCard ∧
    validateEntry 0 (readEntry coder coderCard) = .ok () ∧
      loadFromReader (buildRegistryJSON coder) = .ok { agents := [] } ∧
        ¬ Readable coder coderCard := by
  have loaded := loadFromReader_registry coder
  exact ⟨rfl, by decide, loaded, unreadable_of_empty loaded⟩

end Daedalus.Operator
