import Daedalus.Basic

/-!
# The static agent registry

`Registry` of `internal/registry/registry.go`: the agents of a registry file, the check that the
loader makes, and the lookups, with the scoring of `scorer.go`. The agent cards are those of
`internal/a2a`.
-/
namespace Daedalus

structure AgentSkill where
  id : String
  name : String
  description : String := ""
  tags : List String := []
  examples : List String := []
  deriving DecidableEq, Repr

structure AgentCapabilities where
  streaming : Bool := false
  pushNotifications : Bool := false
  deriving DecidableEq, Repr

structure AgentCard where
  name : String
  description : String
  version : String
  defaultInputModes : List String := []
  defaultOutputModes : List String := []
  skills : List AgentSkill
  capabilities : AgentCapabilities := {}
  deriving DecidableEq, Repr

/-- An agent card with where its agent is to be found. -/
structure AgentEntry where
  card : AgentCard
  queueSubject : String
  runtime : String
  acpPort : ℤ
  deriving DecidableEq, Repr

def AgentEntry.hasSkill (e : AgentEntry) (skillID : String) : Bool :=
  e.card.skills.any (·.id = skillID)

def AgentEntry.hasTag (e : AgentEntry) (tag : String) : Bool :=
  e.card.skills.any fun s => tag ∈ s.tags

/-- The criteria of a routing request. -/
structure RoutingRequest where
  skillID : String := ""
  tags : List String := []
  preferredRuntime : String := ""
  deriving DecidableEq, Repr

structure Registry where
  agents : List AgentEntry
  deriving DecidableEq, Repr

namespace Registry

/-! ## The check of the loader -/

/-- The message of a check on the agent with index `i`. -/
def agentError (i : ℕ) (e : AgentEntry) (text : String) : GoError :=
  .new ("registry: agent[" ++ toString i ++ "] (" ++ e.card.name ++ "): " ++ text)

def skillError (i : ℕ) (e : AgentEntry) (j : ℕ) (text : String) : GoError :=
  .new ("registry: agent[" ++ toString i ++ "] (" ++ e.card.name ++ ") skill[" ++ toString j ++
    "]: " ++ text)

def require (holds : Bool) (err : GoError) : Except GoError Unit :=
  if holds then .ok () else .error err

/-- The loop over the skills of an agent, from index `j` on. -/
def validateSkills (i : ℕ) (e : AgentEntry) : ℕ → List AgentSkill → Except GoError Unit
  | _, [] => .ok ()
  | j, s :: skills => do
    require (s.id ≠ "") (skillError i e j "id is required")
    require (s.name ≠ "") (skillError i e j "name is required")
    validateSkills i e (j + 1) skills

/-- What is checked of an agent by itself. -/
def validateEntry (i : ℕ) (e : AgentEntry) : Except GoError Unit := do
  require (e.card.name ≠ "") (.new ("registry: agent[" ++ toString i ++ "]: name is required"))
  require (e.card.description ≠ "") (agentError i e "description is required")
  require (e.card.version ≠ "") (agentError i e "version is required")
  require (e.queueSubject ≠ "") (agentError i e "queueSubject is required")
  require (e.runtime ≠ "") (agentError i e "runtime is required")
  require (0 < e.acpPort) (agentError i e "acpPort must be > 0")
  require (e.card.skills ≠ []) (agentError i e "at least one skill is required")
  validateSkills i e 0 e.card.skills

/-- The loop over the agents, from index `i` on, with the names and subjects seen so far. -/
def validateFrom (i : ℕ) (names subjects : List String) : List AgentEntry → Except GoError Unit
  | [] => .ok ()
  | e :: entries => do
    validateEntry i e
    require (e.card.name ∉ names) (.new ("registry: duplicate agent name: " ++ e.card.name))
    require (e.queueSubject ∉ subjects)
      (.new ("registry: duplicate queueSubject: " ++ e.queueSubject))
    validateFrom (i + 1) (e.card.name :: names) (e.queueSubject :: subjects) entries

def validate (entries : List AgentEntry) : Except GoError Unit := validateFrom 0 [] [] entries

/-! ## Lookups -/

/-- The queue subject of the first of the agents found for a skill. -/
def routeTo (registry : String) (skillID : String) : List AgentEntry → Except GoError String
  | [] => .error (.new (registry ++ ": no agent found for skill: " ++ skillID))
  | e :: _ => .ok e.queueSubject

def findBySkill (reg : Registry) (skillID : String) : List AgentEntry :=
  reg.agents.filter (·.hasSkill skillID)

def findByName (reg : Registry) (name : String) : Option AgentEntry :=
  reg.agents.find? (·.card.name = name)

def route (reg : Registry) (skillID : String) : Except GoError String :=
  routeTo "registry" skillID (reg.findBySkill skillID)

def all (reg : Registry) : List AgentEntry := reg.agents

def findByTag (reg : Registry) (tag : String) : List AgentEntry :=
  reg.agents.filter (·.hasTag tag)

/-- How well an agent matches, in tenths. The source adds up 1.0, 0.5 and 0.1 as float64; with fewer
than 2^50 tags these sums compare as the exact ones do. -/
def score (entry : AgentEntry) (request : RoutingRequest) : ℕ :=
  (if request.skillID ≠ "" ∧ entry.hasSkill request.skillID then 10 else 0) +
    5 * request.tags.countP (entry.hasTag ·) +
    if request.preferredRuntime ≠ "" ∧ entry.runtime = request.preferredRuntime then 1 else 0

/-- One agent in the loop of `RouteByScore`: the best agent so far with its score. -/
def considerBest (request : RoutingRequest) (best : Option AgentEntry × ℕ) (entry : AgentEntry) :
    Option AgentEntry × ℕ :=
  let s := score entry request
  if s > best.2 then (some entry, s) else best

/-- `RouteByScore` over the agents of either registry. -/
def routeBest (registry : String) (request : RoutingRequest) (entries : List AgentEntry) :
    Except GoError AgentEntry :=
  match (entries.foldl (considerBest request) (none, 0)).1 with
  | none => .error (.new (registry ++ ": no agent matched the routing request"))
  | some best => .ok best

def routeByScore (reg : Registry) (request : RoutingRequest) : Except GoError AgentEntry :=
  routeBest "registry" request reg.agents

end Registry

end Daedalus
