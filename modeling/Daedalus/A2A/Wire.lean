import Daedalus.Basic
import Daedalus.Foundation.Records
import Daedalus.Foundation.Run

/-!
# A2A documents

The types of `internal/a2a/types.go` with all their fields, as `encoding/json` writes and reads
them. `PublishJSON` writes requests, statuses and tasks; `Handle` and the collector read them. A
task state is a text. A value of type `any` is the document it is written as, and the raw data of a
part are the document in them.

Reading gives back what was written, as long as the numbers among the metadata have at most 53 bits,
since they are read as `float64`s. So a message is the value it was made from, wherever it is read.
-/
namespace Daedalus.A2A.Wire

open Foundation Json

/-! ## The types -/

structure Part where
  text : String := ""
  data : Option Json := none
  mediaType : String := ""
  metadata : Dict := .empty

structure Message where
  messageID : String
  contextID : String := ""
  taskID : String := ""
  role : String
  parts : List Part
  metadata : Dict := .empty

structure TaskStatus where
  state : String
  message : Option Message := none
  timestamp : String := ""

structure Artifact where
  artifactID : String
  name : String := ""
  description : String := ""
  parts : List Part
  metadata : Dict := .empty

structure Task where
  id : String
  contextID : String := ""
  status : TaskStatus
  artifacts : List Artifact := []
  history : List Message := []
  metadata : Dict := .empty

structure SendMessageConfiguration where
  acceptedOutputModes : List String := []
  historyLength : Option ℤ := none

structure SendMessageRequest where
  message : Message
  configuration : Option SendMessageConfiguration := none

/-! ## Writing -/

def Part.fields (p : Part) : List (String × Option Json) :=
  [("text", unlessEmpty p.text), ("data", p.data), ("mediaType", unlessEmpty p.mediaType),
    ("metadata", unlessNoEntries p.metadata)]

def encodePart (p : Part) : Json := .obj (object p.fields)

def Message.fields (m : Message) : List (String × Option Json) :=
  [("messageId", some (.str m.messageID)), ("contextId", unlessEmpty m.contextID),
    ("taskId", unlessEmpty m.taskID), ("role", some (.str m.role)),
    ("parts", some (ofSlice (m.parts.map encodePart))),
    ("metadata", unlessNoEntries m.metadata)]

def encodeMessage (m : Message) : Json := .obj (object m.fields)

def TaskStatus.fields (s : TaskStatus) : List (String × Option Json) :=
  [("state", some (.str s.state)), ("message", s.message.map encodeMessage),
    ("timestamp", unlessEmpty s.timestamp)]

def encodeTaskStatus (s : TaskStatus) : Json := .obj (object s.fields)

def Artifact.fields (a : Artifact) : List (String × Option Json) :=
  [("artifactId", some (.str a.artifactID)), ("name", unlessEmpty a.name),
    ("description", unlessEmpty a.description),
    ("parts", some (ofSlice (a.parts.map encodePart))),
    ("metadata", unlessNoEntries a.metadata)]

def encodeArtifact (a : Artifact) : Json := .obj (object a.fields)

def Task.fields (t : Task) : List (String × Option Json) :=
  [("id", some (.str t.id)), ("contextId", unlessEmpty t.contextID),
    ("status", some (encodeTaskStatus t.status)),
    ("artifacts", unlessNil encodeArtifact t.artifacts),
    ("history", unlessNil encodeMessage t.history),
    ("metadata", unlessNoEntries t.metadata)]

def encodeTask (t : Task) : Json := .obj (object t.fields)

def SendMessageConfiguration.fields (c : SendMessageConfiguration) :
    List (String × Option Json) :=
  [("acceptedOutputModes", unlessNil .str c.acceptedOutputModes),
    ("historyLength", c.historyLength.map .num)]

def encodeConfiguration (c : SendMessageConfiguration) : Json := .obj (object c.fields)

def SendMessageRequest.fields (r : SendMessageRequest) : List (String × Option Json) :=
  [("message", some (encodeMessage r.message)),
    ("configuration", r.configuration.map encodeConfiguration)]

def encodeRequest (r : SendMessageRequest) : Json := .obj (object r.fields)

/-! ## Reading -/

def unmarshalError : GoError := .new "json: cannot unmarshal value into Go struct field"

def text : List Json → Except GoError String := toStr unmarshalError

/-- Raw data are taken as they are, also `null`. -/
def raw (docs : List Json) : Except GoError (Option Json) := .ok docs.getLast?

def decodePart (docs : List Json) : Except GoError Part := do
  let m ← toMembers unmarshalError docs
  let text ← field m "text" text
  let data ← field m "data" raw
  let mediaType ← field m "mediaType" Wire.text
  let metadata ← field m "metadata" (toDict unmarshalError)
  return { text, data, mediaType, metadata }

def decodeMessage (docs : List Json) : Except GoError Message := do
  let m ← toMembers unmarshalError docs
  let messageID ← field m "messageId" text
  let contextID ← field m "contextId" text
  let taskID ← field m "taskId" text
  let role ← field m "role" text
  let parts ← field m "parts" (toList unmarshalError decodePart)
  let metadata ← field m "metadata" (toDict unmarshalError)
  return { messageID, contextID, taskID, role, parts, metadata }

def decodeTaskStatus (docs : List Json) : Except GoError TaskStatus := do
  let m ← toMembers unmarshalError docs
  let state ← field m "state" text
  let message ← field m "message" (toOptional decodeMessage)
  let timestamp ← field m "timestamp" text
  return { state, message, timestamp }

def decodeArtifact (docs : List Json) : Except GoError Artifact := do
  let m ← toMembers unmarshalError docs
  let artifactID ← field m "artifactId" text
  let name ← field m "name" text
  let description ← field m "description" text
  let parts ← field m "parts" (toList unmarshalError decodePart)
  let metadata ← field m "metadata" (toDict unmarshalError)
  return { artifactID, name, description, parts, metadata }

def decodeTask (docs : List Json) : Except GoError Task := do
  let m ← toMembers unmarshalError docs
  let id ← field m "id" text
  let contextID ← field m "contextId" text
  let status ← field m "status" decodeTaskStatus
  let artifacts ← field m "artifacts" (toList unmarshalError decodeArtifact)
  let history ← field m "history" (toList unmarshalError decodeMessage)
  let metadata ← field m "metadata" (toDict unmarshalError)
  return { id, contextID, status, artifacts, history, metadata }

def decodeConfiguration (docs : List Json) : Except GoError SendMessageConfiguration := do
  let m ← toMembers unmarshalError docs
  let acceptedOutputModes ← field m "acceptedOutputModes" (toList unmarshalError text)
  let historyLength ← field m "historyLength" (toOptional (toInt unmarshalError))
  return { acceptedOutputModes, historyLength }

def decodeRequest (docs : List Json) : Except GoError SendMessageRequest := do
  let m ← toMembers unmarshalError docs
  let message ← field m "message" decodeMessage
  let configuration ← field m "configuration" (toOptional decodeConfiguration)
  return { message, configuration }

/-! ## Values of which reading loses nothing -/

def Part.Fits (p : Part) : Prop := p.metadata.Fits

structure Message.Fits (m : Message) : Prop where
  parts : ∀ p ∈ m.parts, p.Fits
  metadata : m.metadata.Fits

def TaskStatus.Fits (s : TaskStatus) : Prop := ∀ m ∈ s.message, m.Fits

structure Artifact.Fits (a : Artifact) : Prop where
  parts : ∀ p ∈ a.parts, p.Fits
  metadata : a.metadata.Fits

structure Task.Fits (t : Task) : Prop where
  status : t.status.Fits
  artifacts : ∀ a ∈ t.artifacts, a.Fits
  history : ∀ m ∈ t.history, m.Fits
  metadata : t.metadata.Fits

/-- The history length is an `int`. -/
def SendMessageConfiguration.Fits (c : SendMessageConfiguration) : Prop :=
  ∀ n ∈ c.historyLength, IsInt n

structure SendMessageRequest.Fits (r : SendMessageRequest) : Prop where
  message : r.message.Fits
  configuration : ∀ c ∈ r.configuration, c.Fits

/-! ## Reading what was written -/

theorem decode_part {p : Part} (h : p.Fits) : decodePart [encodePart p] = .ok p := by
  have apart : Distinguishable (p.fields.map (·.1)) :=
    (by decide : Distinguishable ["text", "data", "mediaType", "metadata"])
  have nodup : (p.fields.map (·.1)).Nodup :=
    (by decide : ["text", "data", "mediaType", "metadata"].Nodup)
  have hdata : Reads raw p.data p.data := by
    cases hp : p.data <;> rfl
  refine bind_eq_ok.mpr ⟨object p.fields, rfl, ?_⟩
  refine bind_eq_ok.mpr ⟨p.text, field_record apart nodup (by simp [Part.fields])
    (reads_unlessEmpty _), ?_⟩
  refine bind_eq_ok.mpr ⟨p.data, field_record apart nodup (by simp [Part.fields]) hdata, ?_⟩
  refine bind_eq_ok.mpr ⟨p.mediaType, field_record apart nodup (by simp [Part.fields])
    (reads_unlessEmpty _), ?_⟩
  exact bind_eq_ok.mpr ⟨p.metadata, field_record apart nodup (by simp [Part.fields])
    (reads_unlessNoEntries h), rfl⟩

theorem reads_parts {parts : List Part} (h : ∀ p ∈ parts, p.Fits) :
    Reads (toList unmarshalError decodePart) parts (some (ofSlice (parts.map encodePart))) :=
  reads_ofSlice fun p hp => decode_part (h p hp)

theorem decode_message {m : Message} (h : m.Fits) :
    decodeMessage [encodeMessage m] = .ok m := by
  have apart : Distinguishable (m.fields.map (·.1)) := (by decide : Distinguishable
    ["messageId", "contextId", "taskId", "role", "parts", "metadata"])
  have nodup : (m.fields.map (·.1)).Nodup :=
    (by decide : ["messageId", "contextId", "taskId", "role", "parts", "metadata"].Nodup)
  refine bind_eq_ok.mpr ⟨object m.fields, rfl, ?_⟩
  refine bind_eq_ok.mpr ⟨m.messageID, field_record apart nodup (by simp [Message.fields])
    (reads_str _), ?_⟩
  refine bind_eq_ok.mpr ⟨m.contextID, field_record apart nodup (by simp [Message.fields])
    (reads_unlessEmpty _), ?_⟩
  refine bind_eq_ok.mpr ⟨m.taskID, field_record apart nodup (by simp [Message.fields])
    (reads_unlessEmpty _), ?_⟩
  refine bind_eq_ok.mpr ⟨m.role, field_record apart nodup (by simp [Message.fields])
    (reads_str _), ?_⟩
  refine bind_eq_ok.mpr ⟨m.parts, field_record apart nodup (by simp [Message.fields])
    (reads_parts h.parts), ?_⟩
  exact bind_eq_ok.mpr ⟨m.metadata, field_record apart nodup (by simp [Message.fields])
    (reads_unlessNoEntries h.metadata), rfl⟩

theorem decode_status_extra {s : TaskStatus} (h : s.Fits) {extra : List (String × Json)}
    (foreign : Foreign s.fields extra) :
    decodeTaskStatus [.obj (object s.fields ++ extra)] = .ok s := by
  have apart : Distinguishable (s.fields.map (·.1)) :=
    (by decide : Distinguishable ["state", "message", "timestamp"])
  have nodup : (s.fields.map (·.1)).Nodup := (by decide : ["state", "message", "timestamp"].Nodup)
  have hmessage : Reads (toOptional decodeMessage) s.message (s.message.map encodeMessage) :=
    reads_optional (fun m hm => decode_message (h m hm)) fun _ => by simp [encodeMessage]
  refine bind_eq_ok.mpr ⟨object s.fields ++ extra, rfl, ?_⟩
  refine bind_eq_ok.mpr ⟨s.state, field_object apart nodup foreign (by simp [TaskStatus.fields])
    (reads_str _), ?_⟩
  refine bind_eq_ok.mpr ⟨s.message, field_object apart nodup foreign (by simp [TaskStatus.fields])
    hmessage, ?_⟩
  exact bind_eq_ok.mpr ⟨s.timestamp, field_object apart nodup foreign (by simp [TaskStatus.fields])
    (reads_unlessEmpty _), rfl⟩

theorem decode_status {s : TaskStatus} (h : s.Fits) :
    decodeTaskStatus [encodeTaskStatus s] = .ok s := by
  simpa [encodeTaskStatus] using decode_status_extra h foreign_nil

theorem decode_artifact {a : Artifact} (h : a.Fits) :
    decodeArtifact [encodeArtifact a] = .ok a := by
  have apart : Distinguishable (a.fields.map (·.1)) :=
    (by decide : Distinguishable ["artifactId", "name", "description", "parts", "metadata"])
  have nodup : (a.fields.map (·.1)).Nodup :=
    (by decide : ["artifactId", "name", "description", "parts", "metadata"].Nodup)
  refine bind_eq_ok.mpr ⟨object a.fields, rfl, ?_⟩
  refine bind_eq_ok.mpr ⟨a.artifactID, field_record apart nodup (by simp [Artifact.fields])
    (reads_str _), ?_⟩
  refine bind_eq_ok.mpr ⟨a.name, field_record apart nodup (by simp [Artifact.fields])
    (reads_unlessEmpty _), ?_⟩
  refine bind_eq_ok.mpr ⟨a.description, field_record apart nodup (by simp [Artifact.fields])
    (reads_unlessEmpty _), ?_⟩
  refine bind_eq_ok.mpr ⟨a.parts, field_record apart nodup (by simp [Artifact.fields])
    (reads_parts h.parts), ?_⟩
  exact bind_eq_ok.mpr ⟨a.metadata, field_record apart nodup (by simp [Artifact.fields])
    (reads_unlessNoEntries h.metadata), rfl⟩

theorem decode_task_extra {t : Task} (h : t.Fits) {extra : List (String × Json)}
    (foreign : Foreign t.fields extra) : decodeTask [.obj (object t.fields ++ extra)] = .ok t := by
  have apart : Distinguishable (t.fields.map (·.1)) := (by decide : Distinguishable
    ["id", "contextId", "status", "artifacts", "history", "metadata"])
  have nodup : (t.fields.map (·.1)).Nodup :=
    (by decide : ["id", "contextId", "status", "artifacts", "history", "metadata"].Nodup)
  have hstatus : Reads decodeTaskStatus t.status (some (encodeTaskStatus t.status)) :=
    decode_status h.status
  refine bind_eq_ok.mpr ⟨object t.fields ++ extra, rfl, ?_⟩
  refine bind_eq_ok.mpr ⟨t.id, field_object apart nodup foreign (by simp [Task.fields])
    (reads_str _), ?_⟩
  refine bind_eq_ok.mpr ⟨t.contextID, field_object apart nodup foreign (by simp [Task.fields])
    (reads_unlessEmpty _), ?_⟩
  refine bind_eq_ok.mpr ⟨t.status, field_object apart nodup foreign (by simp [Task.fields])
    hstatus, ?_⟩
  refine bind_eq_ok.mpr ⟨t.artifacts, field_object apart nodup foreign (by simp [Task.fields])
    (reads_unlessNil fun a ha => decode_artifact (h.artifacts a ha)), ?_⟩
  refine bind_eq_ok.mpr ⟨t.history, field_object apart nodup foreign (by simp [Task.fields])
    (reads_unlessNil fun m hm => decode_message (h.history m hm)), ?_⟩
  exact bind_eq_ok.mpr ⟨t.metadata, field_object apart nodup foreign (by simp [Task.fields])
    (reads_unlessNoEntries h.metadata), rfl⟩

theorem decode_task {t : Task} (h : t.Fits) : decodeTask [encodeTask t] = .ok t := by
  simpa [encodeTask] using decode_task_extra h foreign_nil

theorem decode_configuration {c : SendMessageConfiguration} (h : c.Fits) :
    decodeConfiguration [encodeConfiguration c] = .ok c := by
  have apart : Distinguishable (c.fields.map (·.1)) :=
    (by decide : Distinguishable ["acceptedOutputModes", "historyLength"])
  have nodup : (c.fields.map (·.1)).Nodup :=
    (by decide : ["acceptedOutputModes", "historyLength"].Nodup)
  have hlength : Reads (toOptional (toInt unmarshalError)) c.historyLength
      (c.historyLength.map .num) :=
    reads_optional (fun n hn => toInt_singleton _ (h n hn)) fun _ => by simp
  refine bind_eq_ok.mpr ⟨object c.fields, rfl, ?_⟩
  refine bind_eq_ok.mpr ⟨c.acceptedOutputModes, field_record apart nodup
    (by simp [SendMessageConfiguration.fields])
    (reads_unlessNil fun s _ => toStr_singleton _ s), ?_⟩
  exact bind_eq_ok.mpr ⟨c.historyLength, field_record apart nodup
    (by simp [SendMessageConfiguration.fields]) hlength, rfl⟩

theorem decode_request_extra {r : SendMessageRequest} (h : r.Fits) {extra : List (String × Json)}
    (foreign : Foreign r.fields extra) :
    decodeRequest [.obj (object r.fields ++ extra)] = .ok r := by
  have apart : Distinguishable (r.fields.map (·.1)) :=
    (by decide : Distinguishable ["message", "configuration"])
  have nodup : (r.fields.map (·.1)).Nodup := (by decide : ["message", "configuration"].Nodup)
  have hmessage : Reads decodeMessage r.message (some (encodeMessage r.message)) :=
    decode_message h.message
  have hconfiguration : Reads (toOptional decodeConfiguration) r.configuration
      (r.configuration.map encodeConfiguration) :=
    reads_optional (fun c hc => decode_configuration (h.configuration c hc))
      fun _ => by simp [encodeConfiguration]
  refine bind_eq_ok.mpr ⟨object r.fields ++ extra, rfl, ?_⟩
  refine bind_eq_ok.mpr ⟨r.message, field_object apart nodup foreign
    (by simp [SendMessageRequest.fields]) hmessage, ?_⟩
  exact bind_eq_ok.mpr ⟨r.configuration, field_object apart nodup foreign
    (by simp [SendMessageRequest.fields]) hconfiguration, rfl⟩

theorem decode_request {r : SendMessageRequest} (h : r.Fits) :
    decodeRequest [encodeRequest r] = .ok r := by
  simpa [encodeRequest] using decode_request_extra h foreign_nil

/-- Every request, task and status whose metadata fit reads back as it was written, also from a
document to which others have added members that they know and this code does not. -/
theorem documents_read_back (r : SendMessageRequest) (t : Task) (s : TaskStatus)
    (fits : r.Fits ∧ t.Fits ∧ s.Fits) (extra : List (String × Json))
    (hr : Foreign r.fields extra) (ht : Foreign t.fields extra) (hs : Foreign s.fields extra) :
    unmarshal decodeRequest (.obj (object r.fields ++ extra)) = .ok r ∧
      unmarshal decodeTask (.obj (object t.fields ++ extra)) = .ok t ∧
        unmarshal decodeTaskStatus (.obj (object s.fields ++ extra)) = .ok s :=
  ⟨decode_request_extra fits.1 hr, decode_task_extra fits.2.1 ht,
    decode_status_extra fits.2.2 hs⟩

def described : Dict := ⟨[("lang", .str "en"), ("length", .num 5)], by decide⟩

def greeting : Message where
  messageID := "m-1"
  role := "user"
  parts := [{ text := "hello", metadata := described }]

theorem documents_read_back_versioned :
    let extra := [("kind", Json.str "message"), ("jsonrpc", .str "2.0")]
    unmarshal decodeRequest
        (.obj (object (SendMessageRequest.fields { message := greeting }) ++ extra)) =
      .ok { message := greeting } := by
  have empty : Dict.empty.Fits := trivial
  have noted : described.Fits := by
    simp [Dict.Fits, described, FitsMembers, Fits]
  have greets : greeting.Fits := ⟨by simpa [greeting, Part.Fits] using noted, empty⟩
  refine (documents_read_back { message := greeting } { id := "", status := { state := "" } }
    { state := "" } ⟨⟨greets, by simp⟩, ⟨by simp [TaskStatus.Fits], by simp, by simp, empty⟩,
      by simp [TaskStatus.Fits]⟩ _ ?_ ?_ ?_).1
  all_goals
    simp only [Foreign, List.forall_mem_cons, SendMessageRequest.fields, Task.fields,
      TaskStatus.fields]
    decide

end Daedalus.A2A.Wire
