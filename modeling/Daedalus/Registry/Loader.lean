import Daedalus.Foundation.Json
import Daedalus.Registry.Static

/-!
# Loading a registry

`LoadFromReader` of `internal/registry/registry.go`, on a document that is JSON. The records are
read as `encoding/json` reads them; of its errors only the fact that there is one is modelled.
-/
namespace Daedalus.Registry

open Foundation Json

def mismatch : GoError := .new "json: cannot unmarshal value into Go struct field"

def decodeStrings : List Json → Except GoError (List String) := toList mismatch (toStr mismatch)

def decodeSkill (docs : List Json) : Except GoError AgentSkill := do
  let m ← toMembers mismatch docs
  let id ← field m "id" (toStr mismatch)
  let name ← field m "name" (toStr mismatch)
  let description ← field m "description" (toStr mismatch)
  let tags ← field m "tags" decodeStrings
  let examples ← field m "examples" decodeStrings
  return { id, name, description, tags, examples }

def decodeCapabilities (docs : List Json) : Except GoError AgentCapabilities := do
  let m ← toMembers mismatch docs
  let streaming ← field m "streaming" (toBool mismatch)
  let pushNotifications ← field m "pushNotifications" (toBool mismatch)
  return { streaming, pushNotifications }

def decodeCard (docs : List Json) : Except GoError AgentCard := do
  let m ← toMembers mismatch docs
  let name ← field m "name" (toStr mismatch)
  let description ← field m "description" (toStr mismatch)
  let version ← field m "version" (toStr mismatch)
  let defaultInputModes ← field m "defaultInputModes" decodeStrings
  let defaultOutputModes ← field m "defaultOutputModes" decodeStrings
  let skills ← field m "skills" (toList mismatch decodeSkill)
  let capabilities ← field m "capabilities" decodeCapabilities
  return { name, description, version, defaultInputModes, defaultOutputModes, skills, capabilities }

def decodeEntry (docs : List Json) : Except GoError AgentEntry := do
  let m ← toMembers mismatch docs
  let card ← field m "card" decodeCard
  let queueSubject ← field m "queueSubject" (toStr mismatch)
  let runtime ← field m "runtime" (toStr mismatch)
  let acpPort ← field m "acpPort" (toInt mismatch)
  return { card, queueSubject, runtime, acpPort }

/-- The agents of a `registryFile`. -/
def decodeFile (j : Json) : Except GoError (List AgentEntry) := do
  let m ← toMembers mismatch [j]
  field m "agents" (toList mismatch decodeEntry)

def loadFromReader (j : Json) : Except GoError Registry := do
  match decodeFile j with
  | .error err => .error (.wrap "registry: decode JSON" err)
  | .ok agents =>
    validate agents
    return { agents }

end Daedalus.Registry
