import Daedalus.Foundation.Records
import Daedalus.Registry.Convergence
import Daedalus.Registry.Loader

/-!
# Registering agents

`Register` and `Deregister` of `internal/registry/dynamic.go`, next to the registries that watch the
bucket. Each call starts a goroutine that writes the bucket and then waits for it or for its
context, so a call that gives up leaves its write behind, which may still take effect.

As long as no call of an agent gives up on its write, a registry that has processed its updates
serves every agent as its latest call left it. A write that is left behind can bring an agent back
after its `Deregister` has returned.
-/
namespace Daedalus.Registry

open Foundation Json

/-! ## The document of an entry -/

def AgentSkill.fields (s : AgentSkill) : List (String × Option Json) :=
  [("id", some (.str s.id)), ("name", some (.str s.name)),
    ("description", some (.str s.description)), ("tags", some (ofSlice (s.tags.map .str))),
    ("examples", unlessNil .str s.examples)]

def encodeSkill (s : AgentSkill) : Json := .obj (object (AgentSkill.fields s))

def AgentCapabilities.fields (c : AgentCapabilities) : List (String × Option Json) :=
  [("streaming", some (.bool c.streaming)), ("pushNotifications", some (.bool c.pushNotifications))]

def encodeCapabilities (c : AgentCapabilities) : Json := .obj (object (AgentCapabilities.fields c))

def AgentCard.fields (c : AgentCard) : List (String × Option Json) :=
  [("name", some (.str c.name)), ("description", some (.str c.description)),
    ("version", some (.str c.version)),
    ("defaultInputModes", some (ofSlice (c.defaultInputModes.map .str))),
    ("defaultOutputModes", some (ofSlice (c.defaultOutputModes.map .str))),
    ("skills", some (ofSlice (c.skills.map encodeSkill))),
    ("capabilities", some (encodeCapabilities c.capabilities))]

def encodeCard (c : AgentCard) : Json := .obj (object (AgentCard.fields c))

def AgentEntry.fields (e : AgentEntry) : List (String × Option Json) :=
  [("card", some (encodeCard e.card)), ("queueSubject", some (.str e.queueSubject)),
    ("runtime", some (.str e.runtime)), ("acpPort", some (.num e.acpPort))]

def encodeEntry (e : AgentEntry) : Json := .obj (object (AgentEntry.fields e))

theorem reads_strings (ss : List String) :
    Reads decodeStrings ss (some (ofSlice (ss.map .str))) :=
  reads_ofSlice fun s _ => toStr_singleton mismatch s

theorem decode_encodeSkill (s : AgentSkill) : decodeSkill [encodeSkill s] = .ok s := by
  have apart : Distinguishable ((AgentSkill.fields s).map (·.1)) :=
    (by decide : Distinguishable ["id", "name", "description", "tags", "examples"])
  have nodup : ((AgentSkill.fields s).map (·.1)).Nodup :=
    (by decide : ["id", "name", "description", "tags", "examples"].Nodup)
  have hexamples : Reads decodeStrings s.examples (unlessNil .str s.examples) :=
    reads_unlessNil fun s _ => toStr_singleton mismatch s
  refine bind_eq_ok.mpr ⟨object (AgentSkill.fields s), rfl, ?_⟩
  refine bind_eq_ok.mpr ⟨s.id, field_record apart nodup (by simp [AgentSkill.fields])
    (reads_str _), ?_⟩
  refine bind_eq_ok.mpr ⟨s.name, field_record apart nodup (by simp [AgentSkill.fields])
    (reads_str _), ?_⟩
  refine bind_eq_ok.mpr ⟨s.description, field_record apart nodup (by simp [AgentSkill.fields])
    (reads_str _), ?_⟩
  refine bind_eq_ok.mpr ⟨s.tags, field_record apart nodup (by simp [AgentSkill.fields])
    (reads_strings _), ?_⟩
  exact bind_eq_ok.mpr ⟨s.examples, field_record apart nodup (by simp [AgentSkill.fields])
    hexamples, rfl⟩

theorem decode_encodeCapabilities (c : AgentCapabilities) :
    decodeCapabilities [encodeCapabilities c] = .ok c := by
  have apart : Distinguishable ((AgentCapabilities.fields c).map (·.1)) :=
    (by decide : Distinguishable ["streaming", "pushNotifications"])
  have nodup : ((AgentCapabilities.fields c).map (·.1)).Nodup :=
    (by decide : ["streaming", "pushNotifications"].Nodup)
  refine bind_eq_ok.mpr ⟨object (AgentCapabilities.fields c), rfl, ?_⟩
  refine bind_eq_ok.mpr ⟨c.streaming, field_record apart nodup
    (by simp [AgentCapabilities.fields]) (reads_bool _), ?_⟩
  exact bind_eq_ok.mpr ⟨c.pushNotifications, field_record apart nodup
    (by simp [AgentCapabilities.fields]) (reads_bool _), rfl⟩

theorem decode_encodeCard (c : AgentCard) : decodeCard [encodeCard c] = .ok c := by
  have apart : Distinguishable ((AgentCard.fields c).map (·.1)) := (by decide : Distinguishable
    ["name", "description", "version", "defaultInputModes", "defaultOutputModes", "skills",
      "capabilities"])
  have nodup : ((AgentCard.fields c).map (·.1)).Nodup := (by decide :
    ["name", "description", "version", "defaultInputModes", "defaultOutputModes", "skills",
      "capabilities"].Nodup)
  have hskills : Reads (toList mismatch decodeSkill) c.skills
      (some (ofSlice (c.skills.map encodeSkill))) := reads_ofSlice fun s _ => decode_encodeSkill s
  have hcapabilities : Reads decodeCapabilities c.capabilities
      (some (encodeCapabilities c.capabilities)) := decode_encodeCapabilities c.capabilities
  refine bind_eq_ok.mpr ⟨object (AgentCard.fields c), rfl, ?_⟩
  refine bind_eq_ok.mpr ⟨c.name, field_record apart nodup (by simp [AgentCard.fields])
    (reads_str _), ?_⟩
  refine bind_eq_ok.mpr ⟨c.description, field_record apart nodup (by simp [AgentCard.fields])
    (reads_str _), ?_⟩
  refine bind_eq_ok.mpr ⟨c.version, field_record apart nodup (by simp [AgentCard.fields])
    (reads_str _), ?_⟩
  refine bind_eq_ok.mpr ⟨c.defaultInputModes, field_record apart nodup
    (by simp [AgentCard.fields]) (reads_strings _), ?_⟩
  refine bind_eq_ok.mpr ⟨c.defaultOutputModes, field_record apart nodup
    (by simp [AgentCard.fields]) (reads_strings _), ?_⟩
  refine bind_eq_ok.mpr ⟨c.skills, field_record apart nodup (by simp [AgentCard.fields])
    hskills, ?_⟩
  exact bind_eq_ok.mpr ⟨c.capabilities, field_record apart nodup (by simp [AgentCard.fields])
    hcapabilities, rfl⟩

/-- What `Register` stores is what the watchers read. -/
theorem decode_encodeEntry {e : AgentEntry} (port : IsInt e.acpPort) :
    decodeEntry [encodeEntry e] = .ok e := by
  have apart : Distinguishable ((AgentEntry.fields e).map (·.1)) :=
    (by decide : Distinguishable ["card", "queueSubject", "runtime", "acpPort"])
  have nodup : ((AgentEntry.fields e).map (·.1)).Nodup :=
    (by decide : ["card", "queueSubject", "runtime", "acpPort"].Nodup)
  have hcard : Reads decodeCard e.card (some (encodeCard e.card)) := decode_encodeCard e.card
  refine bind_eq_ok.mpr ⟨object (AgentEntry.fields e), rfl, ?_⟩
  refine bind_eq_ok.mpr ⟨e.card, field_record apart nodup (by simp [AgentEntry.fields])
    hcard, ?_⟩
  refine bind_eq_ok.mpr ⟨e.queueSubject, field_record apart nodup (by simp [AgentEntry.fields])
    (reads_str _), ?_⟩
  refine bind_eq_ok.mpr ⟨e.runtime, field_record apart nodup (by simp [AgentEntry.fields])
    (reads_str _), ?_⟩
  exact bind_eq_ok.mpr ⟨e.acpPort, field_record apart nodup (by simp [AgentEntry.fields])
    (reads_int port), rfl⟩

end Daedalus.Registry

namespace Daedalus.Registration

open Foundation Discovery

/-! ## The calls -/

inductive Request where
  | register (entry : AgentEntry) (port : Json.IsInt entry.acpPort)
  | deregister (name : String)
  deriving DecidableEq

namespace Request

def key : Request → String
  | .register entry _ => entry.card.name
  | .deregister name => name

/-- What the goroutine of the call writes: the entry as a document, for those who read it. -/
def op : Request → KVOp
  | .register entry _ =>
    .put (Json.unmarshal Registry.decodeEntry (Registry.encodeEntry entry)).toOption
  | .deregister _ => .delete

/-- The beginning of the error of a call whose write failed, -/
def failed : Request → String
  | .register entry _ => "dynamic registry: register \"" ++ entry.card.name ++ "\""
  | .deregister name => "dynamic registry: delete entry \"" ++ name ++ "\""

/-- and of one whose context was done. -/
def abandoned : Request → String
  | .register entry _ => "dynamic registry: register \"" ++ entry.card.name ++ "\""
  | .deregister name => "dynamic registry: deregister \"" ++ name ++ "\""

/-- The entry that the call leaves for its name. -/
def outcome : Request → Option AgentEntry
  | .register entry _ => some entry
  | .deregister _ => none

end Request

/-- What became of a write: confirmed, or answered by an error, with or without effect. -/
inductive Fate where
  | done
  | lost (err : GoError)
  | unconfirmed (err : GoError)

def Fate.err : Fate → Option GoError
  | .done => none
  | .lost err | .unconfirmed err => some err

def Fate.written : Fate → Bool
  | .lost _ => false
  | _ => true

structure Call where
  request : Request
  /-- What the goroutine has put into the channel: the error of the write, if any. -/
  answer : Option (Option GoError)
  /-- The error that the call has returned, if any. -/
  result : Option (Option GoError)

structure State where
  discovery : Discovery.State
  calls : List Call

def State.new (fallback : Option Registry) : State where
  discovery := .new fallback
  calls := []

def State.setCall (s : State) (i : ℕ) (c : Call) : State := { s with calls := s.calls.set i c }

/-- A write of the bucket takes effect. -/
def State.write (s : State) (request : Request) : State :=
  { s with discovery := s.discovery.write request.key request.op }

inductive Act where
  | call (request : Request)
  /-- `kv.Put` or `kv.Delete` of call `i` returns. -/
  | land (i : ℕ) (fate : Fate)
  /-- Call `i` gets the answer from the channel, -/
  | receive (i : ℕ)
  /-- or sees that its context is done. -/
  | ctxDone (i : ℕ) (err : CtxErr)
  /-- The registry moves, or an entry expires. -/
  | discovery (a : Discovery.Act)

/-- Nobody else writes the bucket. -/
def byOthers : Discovery.Act → Bool
  | .put _ _ | .delete _ | .purge _ => true
  | _ => false

def step (s : State) : Act → Option State
  | .call request => some { s with calls := s.calls ++ [⟨request, none, none⟩] }
  | .land i fate => s.calls[i]?.bind fun c =>
    if c.answer.isNone then
      some ((if fate.written then s.write c.request else s).setCall i
        { c with answer := some fate.err })
    else none
  | .receive i => s.calls[i]?.bind fun c =>
    if c.result.isNone then
      c.answer.map fun err =>
        s.setCall i { c with result := some (err.map (.wrap c.request.failed)) }
    else none
  | .ctxDone i err => s.calls[i]?.bind fun c =>
    if c.result.isNone then
      some (s.setCall i
        { c with result := some (some (.wrap c.request.abandoned err.toError)) })
    else none
  | .discovery a =>
    if byOthers a then none
    else (Discovery.step s.discovery a).map fun discovery => { s with discovery }

/-- The calls for one name come one after another, and none of them gives up on its write. Agents
register again before their entry expires; a marker expires after the registry has seen it. -/
def Orderly (s : State) : Act → Prop
  | .call request => ∀ c ∈ s.calls, c.request.key = request.key →
    c.answer.isSome ∧ c.result.isSome
  | .discovery (.expire key) => Kept s.discovery (.expire key) ∧
    ∀ op ∈ s.discovery.bucket.load key, op.isPut = false
  | _ => True

/-! ## What a step can do -/

section Steps

variable {s t : State} {a : Act} {i j : ℕ} {c c' : Call} {request : Request} {key : String}

/-- A call begins, a write is over, a call returns, or the registry moves. -/
theorem step_cases (h : step s a = some t) :
    (∃ request, a = .call request ∧ t = { s with calls := s.calls ++ [⟨request, none, none⟩] }) ∨
    (∃ i c fate, s.calls[i]? = some c ∧ c.answer = none ∧
      t = (if Fate.written fate then s.write c.request else s).setCall i
        { c with answer := some fate.err }) ∨
    (∃ i c err, s.calls[i]? = some c ∧ (err = none → c.answer = some none) ∧
      t = s.setCall i { c with result := some err }) ∨
    (∃ b discovery, a = .discovery b ∧ byOthers b = false ∧
      Discovery.step s.discovery b = some discovery ∧ t = { s with discovery }) := by
  cases a with
  | call request =>
    cases h
    exact .inl ⟨request, rfl, rfl⟩
  | land i fate =>
    obtain ⟨c, hc, h⟩ := Option.bind_eq_some_iff.mp h
    by_cases hanswer : c.answer.isNone
    · rw [if_pos hanswer] at h
      cases h
      exact .inr (.inl ⟨i, c, fate, hc, Option.isNone_iff_eq_none.mp hanswer, rfl⟩)
    · rw [if_neg hanswer] at h
      cases h
  | receive i =>
    obtain ⟨c, hc, h⟩ := Option.bind_eq_some_iff.mp h
    split_ifs at h
    obtain ⟨err, herr, rfl⟩ := Option.map_eq_some_iff.mp h
    refine .inr (.inr (.inl ⟨i, c, _, hc, fun none => ?_, rfl⟩))
    rw [herr, Option.map_eq_none_iff.mp none]
  | ctxDone i err =>
    obtain ⟨c, hc, h⟩ := Option.bind_eq_some_iff.mp h
    split_ifs at h
    cases h
    exact .inr (.inr (.inl ⟨i, c, _, hc, by simp, rfl⟩))
  | discovery b =>
    simp only [step] at h
    split_ifs at h with hothers
    obtain ⟨discovery, hb, rfl⟩ := Option.map_eq_some_iff.mp h
    exact .inr (.inr (.inr ⟨b, discovery, rfl, by simpa using hothers, hb, rfl⟩))

/-- What the write of a call is, for those who read it. -/
theorem op_eq (request : Request) : request.op =
    match request with
    | .register entry _ => .put (some entry)
    | .deregister _ => .delete := by
  cases request with
  | register entry port =>
    simp [Request.op, Json.unmarshal, Registry.decode_encodeEntry port, Except.toOption]
  | deregister name => rfl

theorem op_ne_none (request : Request) : request.op ≠ .put none := by
  rw [op_eq]
  cases request <;> simp

theorem load_write (s : State) (request : Request) (k : String) :
    (s.write request).discovery.bucket.load k =
      if k = request.key then some request.op else s.discovery.bucket.load k :=
  Table.load_store _ _ _ _

/-! ## The latest call for a name -/

def State.keys (s : State) : List String := s.calls.map (·.request.key)

/-- No later call is for the same name. -/
def Latest (keys : List String) (i : ℕ) : Prop := ∀ j, i < j → ∀ k ∈ keys[j]?, keys[i]? ≠ some k

theorem latest_iff {keys : List String} :
    Latest keys i ↔ ∀ j < keys.length, i < j → keys[i]? ≠ keys[j]? := by
  constructor
  · intro h j hj hij same
    have hk : keys[j]? = some keys[j] := List.getElem?_eq_getElem hj
    exact h j hij keys[j] hk (same.trans hk)
  · intro h j hij k hk same
    exact h j (List.getElem?_eq_some_iff.mp hk).1 hij (same.trans hk.symm)

instance (keys : List String) (i : ℕ) : Decidable (Latest keys i) :=
  decidable_of_iff _ latest_iff.symm

theorem keys_setCall (hc : s.calls[i]? = some c) (same : c'.request = c.request) :
    (s.setCall i c').keys = s.keys := by
  refine List.ext_getElem? fun j => ?_
  by_cases hij : i = j
  · subst hij
    obtain ⟨hlt, rfl⟩ := List.getElem?_eq_some_iff.mp hc
    simp [State.keys, State.setCall, hlt, same]
  · simp [State.keys, State.setCall, hij]

theorem getElem?_keys (hc : s.calls[i]? = some c) : s.keys[i]? = some c.request.key := by
  simp [State.keys, hc]

/-- There is one latest call for a name. -/
theorem Latest.unique {keys : List String} (hi : Latest keys i) (hj : Latest keys j)
    (hik : keys[i]? = some key) (hjk : keys[j]? = some key) : i = j := by
  rcases lt_trichotomy i j with hlt | heq | hlt
  · exact absurd hik (hi j hlt key hjk)
  · exact heq
  · exact absurd hjk (hj i hlt key hik)

theorem latest_snoc {keys : List String} (hlt : i < keys.length) :
    Latest (keys ++ [key]) i ↔ Latest keys i ∧ keys[i]? ≠ some key := by
  constructor
  · intro h
    have own : (keys ++ [key])[i]? = keys[i]? := List.getElem?_append_left hlt
    constructor
    · intro j hij k hk
      have hj : j < keys.length := (List.getElem?_eq_some_iff.mp hk).1
      rw [← own]
      exact h j hij k (by rwa [List.getElem?_append_left hj])
    · rw [← own]
      exact h keys.length hlt key (by simp)
  · rintro ⟨h, other⟩ j hij k hk
    rw [List.getElem?_append_left hlt]
    rcases lt_or_ge j keys.length with hj | hj
    · rw [List.getElem?_append_left hj] at hk
      exact h j hij k hk
    · rw [List.getElem?_append_right hj] at hk
      obtain ⟨-, rfl⟩ := List.getElem?_eq_some_iff.mp hk
      simpa using other

/-! ## The bucket shows the latest calls -/

/-- The entry of the bucket is what the call has written, or its marker has expired. -/
def Reflects : Request → Option KVOp → Prop
  | .register entry _, op => op = some (.put (some entry))
  | .deregister _, op => op = some .delete ∨ op = none

structure Inv (s : State) : Prop where
  converging : ∃ live, Converging live s.discovery
  decodable : ∀ k, s.discovery.bucket.load k ≠ some (.put none)
  unknown : ∀ k, k ∉ s.keys → s.discovery.bucket.load k = none
  settled : ∀ i c, s.calls[i]? = some c → Latest s.keys i → c.answer = some none →
    Reflects c.request (s.discovery.bucket.load c.request.key)
  returned : ∀ (i : ℕ) (c : Call), s.calls[i]? = some c → c.result = some none →
    c.answer = some none
  pending : ∀ i c, s.calls[i]? = some c → c.answer = none → Latest s.keys i

theorem Inv.new (fallback : Option Registry) : Inv (.new fallback) := by
  refine ⟨⟨_, Converging.new fallback⟩, ?_, ?_, ?_, ?_, ?_⟩ <;>
    simp [State.new, Discovery.State.new, Table.load]

theorem reflects_op (request : Request) : Reflects request (some request.op) := by
  rw [op_eq]
  cases request with
  | register entry port => rfl
  | deregister name => exact .inl rfl

theorem Inv.call (h : Inv s)
    (hok : ∀ c ∈ s.calls, c.request.key = request.key → c.answer.isSome ∧ c.result.isSome) :
    Inv { s with calls := s.calls ++ [⟨request, none, none⟩] } := by
  have keys : State.keys { s with calls := s.calls ++ [⟨request, none, none⟩] } =
      s.keys ++ [request.key] := by
    simp [State.keys]
  have length : s.keys.length = s.calls.length := List.length_map _
  -- a call is one of the old ones or the new one
  have cases_call : ∀ i c, (s.calls ++ [⟨request, none, none⟩])[i]? = some c →
      (i < s.calls.length ∧ s.calls[i]? = some c) ∨
      (i = s.calls.length ∧ c = ⟨request, none, none⟩) := by
    intro i c hc
    rcases getElem?_snoc.mp hc with old | new
    · exact .inl ⟨(List.getElem?_eq_some_iff.mp old).1, old⟩
    · exact .inr new
  refine ⟨h.converging, h.decodable, ?_, ?_, ?_, ?_⟩
  · intro k hk
    rw [keys] at hk
    exact h.unknown k fun hold => hk (List.mem_append_left _ hold)
  · intro i c hc latest answer
    rcases cases_call i c hc with ⟨hi, hold⟩ | ⟨rfl, rfl⟩
    · rw [keys, latest_snoc (length ▸ hi)] at latest
      exact h.settled i c hold latest.1 answer
    · cases answer
  · intro i c hc result
    rcases cases_call i c hc with ⟨-, hold⟩ | ⟨-, rfl⟩
    · exact h.returned i c hold result
    · cases result
  · intro i c hc answer
    rw [keys]
    rcases cases_call i c hc with ⟨hi, hold⟩ | ⟨rfl, -⟩
    · refine (latest_snoc (length ▸ hi)).mpr ⟨h.pending i c hold answer, ?_⟩
      rw [getElem?_keys hold]
      intro same
      have written := (hok c (List.mem_of_getElem? hold) (Option.some.inj same)).1
      simp [answer] at written
    · intro j hij k hk
      have hj := (List.getElem?_eq_some_iff.mp hk).1
      simp only [List.length_append, List.length_singleton, length] at hj
      omega

/-- The answer or the result of a call is filled in. -/
theorem Inv.setCall (h : Inv s) (hc : s.calls[i]? = some c) (same : c'.request = c.request)
    (settled : Latest s.keys i → c'.answer = some none →
      Reflects c'.request (s.discovery.bucket.load c'.request.key))
    (returned : c'.result = some none → c'.answer = some none)
    (answered : c'.answer = none → c.answer = none) : Inv (s.setCall i c') := by
  have keys := keys_setCall hc same
  have hlt := (List.getElem?_eq_some_iff.mp hc).1
  have cases_call : ∀ j d, (s.setCall i c').calls[j]? = some d →
      (j = i ∧ d = c') ∨ s.calls[j]? = some d := by
    intro j d hd
    by_cases hij : i = j
    · subst hij
      simp only [State.setCall, List.getElem?_set_self hlt] at hd
      exact .inl ⟨rfl, (Option.some.inj hd).symm⟩
    · simp only [State.setCall, List.getElem?_set_ne hij] at hd
      exact .inr hd
  refine ⟨h.converging, h.decodable, ?_, ?_, ?_, ?_⟩
  · rw [keys]
    exact h.unknown
  · intro j d hd latest answer
    rw [keys] at latest
    rcases cases_call j d hd with ⟨rfl, rfl⟩ | hold
    · exact settled latest answer
    · exact h.settled j d hold latest answer
  · intro j d hd result
    rcases cases_call j d hd with ⟨rfl, rfl⟩ | hold
    · exact returned result
    · exact h.returned j d hold result
  · intro j d hd answer
    rw [keys]
    rcases cases_call j d hd with ⟨rfl, rfl⟩ | hold
    · exact h.pending j c hc (answered answer)
    · exact h.pending j d hold answer

/-- The write of a call that nobody has followed. -/
theorem Inv.write (h : Inv s) (hc : s.calls[i]? = some c) (open_ : c.answer = none) :
    Inv (s.write c.request) := by
  obtain ⟨live, converging⟩ := h.converging
  have own := getElem?_keys hc
  refine ⟨⟨_, converging.write fun e => absurd e (op_ne_none _)⟩, ?_, ?_, ?_, h.returned, h.pending⟩
  · intro k
    rw [load_write]
    split_ifs
    · simpa using op_ne_none c.request
    · exact h.decodable k
  · intro k hk
    have other : k ≠ c.request.key := by
      rintro rfl
      exact hk (List.mem_of_getElem? own)
    rw [load_write, if_neg other]
    exact h.unknown k hk
  · intro j d hd latest answer
    have other : d.request.key ≠ c.request.key := by
      intro same
      have hd' := getElem?_keys hd
      rw [same] at hd'
      obtain rfl := latest.unique (h.pending i c hc open_) hd' own
      obtain rfl := Option.some.inj (hd.symm.trans hc)
      simp [answer] at open_
    rw [load_write, if_neg other]
    exact h.settled j d hd latest answer

theorem Inv.land (h : Inv s) (hc : s.calls[i]? = some c) (open_ : c.answer = none) (fate : Fate) :
    Inv ((if fate.written then s.write c.request else s).setCall i
      { c with answer := some fate.err }) := by
  have unreturned : c.result = some none → some fate.err = some none := by
    intro result
    simp [h.returned i c hc result] at open_
  cases fate with
  | done =>
    refine (h.write hc open_).setCall hc rfl (fun _ _ => ?_) unreturned (fun e => by cases e)
    rw [load_write, if_pos rfl]
    exact reflects_op c.request
  | lost err =>
    exact h.setCall hc rfl (fun _ e => by cases e) unreturned (fun e => by cases e)
  | unconfirmed err =>
    exact (h.write hc open_).setCall hc rfl (fun _ e => by cases e) unreturned
      (fun e => by cases e)

theorem bucket_of_step {d d' : Discovery.State} {b : Discovery.Act} (own : byOthers b = false)
    (lasting : ∀ key, b ≠ .expire key) (h : Discovery.step d b = some d') :
    d'.bucket = d.bucket := by
  cases b with
  | put | delete | purge => cases own
  | expire key => exact absurd rfl (lasting key)
  | keys | ready =>
    simp only [Discovery.step] at h
    split_ifs at h
    cases h
    rfl
  | watch ok =>
    simp only [Discovery.step] at h
    split_ifs at h <;> cases h <;> rfl
  | get | deliver | fail | close =>
    simp only [Discovery.step] at h
    split at h <;> cases h <;> rfl

/-- The registry moves, or a marker expires. -/
theorem Inv.discovery (h : Inv s) {b : Discovery.Act} {d : Discovery.State}
    (own : byOthers b = false) (hok : Orderly s (.discovery b))
    (hb : Discovery.step s.discovery b = some d) : Inv { s with discovery := d } := by
  obtain ⟨live, converging⟩ := h.converging
  have kept : Kept s.discovery b := by
    cases b with
    | put | delete | purge => cases own
    | expire key => exact hok.1
    | fail => exact fun u _ => h.decodable u.1
    | _ => trivial
  by_cases expired : ∃ key, b = .expire key
  · obtain ⟨key, rfl⟩ := expired
    have load : ∀ k, d.bucket.load k = if k = key then none else s.discovery.bucket.load k := by
      intro k
      simp only [Discovery.step] at hb
      split_ifs at hb
      cases hb
      exact Table.load_delete _ _ _
    refine ⟨⟨_, converging.step kept hb⟩, ?_, ?_, ?_, h.returned, h.pending⟩
    · intro k
      rw [load]
      split_ifs
      · simp
      · exact h.decodable k
    · intro k hk
      rw [load]
      split_ifs
      · rfl
      · exact h.unknown k hk
    · intro i c hc latest answer
      have settled := h.settled i c hc latest answer
      rw [load]
      split_ifs with hkey
      · -- an entry that has not been removed does not expire
        cases hrequest : c.request with
        | register entry port =>
          rw [hrequest] at settled hkey
          have removed := hok.2 (.put (some entry)) (hkey ▸ settled)
          cases removed
        | deregister name => exact .inr rfl
      · exact settled
  · have bucket : d.bucket = s.discovery.bucket :=
      bucket_of_step own (fun key e => expired ⟨key, e⟩) hb
    refine ⟨⟨_, converging.step kept hb⟩, ?_, ?_, ?_, h.returned, h.pending⟩
    · exact fun k => bucket ▸ h.decodable k
    · exact fun k hk => bucket ▸ h.unknown k hk
    · exact fun i c hc latest answer => bucket ▸ h.settled i c hc latest answer

theorem Inv.step (h : Inv s) (hok : Orderly s a) (hs : step s a = some t) : Inv t := by
  obtain ⟨request, rfl, rfl⟩ | ⟨i, c, fate, hc, open_, rfl⟩ | ⟨i, c, err, hc, answered, rfl⟩ |
    ⟨b, d, rfl, own, hb, rfl⟩ := step_cases hs
  · exact h.call hok
  · exact h.land hc open_ fate
  · refine h.setCall hc rfl (fun latest answer => h.settled i c hc latest answer) ?_ id
    intro result
    exact answered (Option.some.inj result)
  · exact h.discovery own hok hb

end Steps

instance (s : State) (a : Act) : Decidable (Orderly s a) :=
  match a with
  | .call request => inferInstanceAs (Decidable (∀ c ∈ s.calls, c.request.key = request.key →
    c.answer.isSome = true ∧ c.result.isSome = true))
  | .discovery (.expire key) => inferInstanceAs (Decidable (Kept s.discovery (.expire key) ∧
    ∀ op ∈ s.discovery.bucket.load key, op.isPut = false))
  | .land _ _ | .receive _ | .ctxDone _ _ | .discovery (.put _ _) | .discovery (.delete _)
  | .discovery (.purge _) | .discovery (.keys _) | .discovery (.get _) | .discovery .ready
  | .discovery (.watch _) | .discovery .deliver | .discovery .fail | .discovery .close =>
    isTrue trivial

/-- A registry with an empty bucket, whose watcher is running. -/
def watching : List Act :=
  [.discovery (.keys []), .discovery .ready, .discovery (.watch true), .discovery .deliver]

/-- The reviewer takes over from the coder; their writes cross. -/
def turnover : List Act := watching ++ ([
  .call (.register (agent "coder") (by decide)), .land 0 .done, .receive 0, .discovery .deliver,
  .call (.deregister "coder"), .call (.register (agent "reviewer") (by decide)), .land 2 .done,
  .land 1 .done, .receive 1, .receive 2, .discovery .deliver, .discovery .deliver,
  .discovery (.expire "coder")] : List Act)

/-- The coder gives up on its registration and deregisters; its first write takes effect last. -/
def lateWrite : List Act := watching ++ ([
  .call (.register (agent "coder") (by decide)), .ctxDone 0 .deadlineExceeded,
  .call (.deregister "coder"), .land 1 .done, .receive 1, .land 0 .done, .discovery .deliver,
  .discovery .deliver] : List Act)

example : (run step (.new none) lateWrite).map (fun s =>
      (s.discovery.stage, s.discovery.registry.findByName "coder", s.calls.map (·.result))) =
    some (.up [], some (agent "coder"),
      [some (some (.wrap "dynamic registry: register \"coder\"" CtxErr.deadlineExceeded.toError)),
        some none]) := by
  decide +kernel

end Daedalus.Registration
