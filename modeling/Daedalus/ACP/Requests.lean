import Daedalus.Foundation.Json
import Daedalus.ACP.Stranded

/-!
# Requests of the peer

A message with a method and an ID is a request of the peer, and the peer waits for its answer. The
reader answers one request before it reads the next line, so answers go out in the order of
arrival. One path of `handleServerRequest` ends without an answer: a permission request whose
parameters do not decode is logged and dropped (`permission_unanswered`). A request with an unknown
method, by contrast, is answered by an error.
-/
namespace Daedalus.ACP

open Foundation

/-! ## Permission parameters -/

/-- One member of the parameters, when the session ID read so far is `id`. `toolCall` and `options`
are kept as they are, and so are unknown members. -/
def permissionMember (id : String) (member : String × Json) : Option String :=
  if Json.matchesField "sessionId" member.1 then
    match member.2 with
    | .str s => some s
    | .null => some id
    | _ => none
  else some id

/-- `json.Unmarshal` of the parameters into `PermissionRequestParams`, by its session ID. Absent
parameters are no JSON at all. -/
def permissionParams : Option Json → Option String
  | some (.obj members) => members.foldlM permissionMember ""
  | some .null => some ""
  | _ => none

/-- The document can be stored in a string field. -/
def isText : Json → Bool
  | .str _ => true
  | .null => true
  | _ => false

/-- The parameters are there, and an object whose `sessionId` is a string or `null`, or `null`. -/
def WellTyped : Option Json → Prop
  | some (.obj members) => ∀ m ∈ members, Json.matchesField "sessionId" m.1 → isText m.2
  | some .null => True
  | _ => False

instance WellTyped.decidable : (params : Option Json) → Decidable (WellTyped params)
  | some (.obj members) => inferInstanceAs (Decidable (∀ m ∈ members, _ → _))
  | some .null => isTrue trivial
  | none | some (.bool _) | some (.num _) | some (.str _) | some (.arr _) => isFalse id

theorem permissionMember_isSome {id : String} {m : String × Json} :
    (permissionMember id m).isSome ↔ (Json.matchesField "sessionId" m.1 → isText m.2) := by
  unfold permissionMember
  split_ifs with named
  · obtain ⟨key, j⟩ := m
    cases j <;> simp_all [isText]
  · simp [named]

theorem permissionParams_isSome {params : Option Json} :
    (permissionParams params).isSome ↔ WellTyped params := by
  -- By induction on the members; the session ID read so far is arbitrary.
  have each : ∀ (members : List (String × Json)) (id : String),
      (members.foldlM permissionMember id).isSome ↔
        ∀ m ∈ members, Json.matchesField "sessionId" m.1 → isText m.2 := by
    intro members
    induction members with
    | nil => simp
    | cons m members ih =>
      intro id
      rw [List.forall_mem_cons, ← @permissionMember_isSome id]
      cases hm : permissionMember id m with
      | none => simp [hm]
      | some id' => simpa [hm] using ih id'
  cases params with
  | none => simp [permissionParams, WellTyped]
  | some params =>
    cases params with
    | obj members => exact each members ""
    | _ => simp [permissionParams, WellTyped]

/-! ## Messages and answers -/

/-- A message that `readLoop` has parsed, with its parameters as they came. -/
structure Incoming where
  msg : Response
  params : Option Json

/-- The message as the client reads it. -/
def Incoming.response (m : Incoming) : Response :=
  { m.msg with permission := permissionParams m.params }

/-- The ID of a request that waits for an answer. -/
def requestID (msg : Response) : Option Int64 := if msg.isServerRequest then msg.id else none

def Outgoing.id : Outgoing → Int64
  | .result id _ => id
  | .error id _ _ => id

/-- The answer the reader is about to write. -/
def Reader.owed : Reader → List Outgoing
  | .answering out => [out]
  | _ => []

/-- The answer that `handleServerRequest` gives to a message, if it gives one. -/
def answerTo (msg : Response) : Option Outgoing :=
  (requestID msg).bind fun id => (handleServerRequest id msg).owed.head?

/-- The message that an action reads. -/
def Act.line : Act → Option Response
  | .read (.line msg) => msg
  | _ => none

/-- The messages read, in the order of arrival. -/
def received (acts : List Act) : List Response := acts.filterMap Act.line

/-- Writing to the connection succeeds. -/
def Act.Writes : Act → Prop
  | .read (.answer written) => written = true
  | _ => True

instance Act.Writes.decidable : (a : Act) → Decidable a.Writes
  | .read (.answer written) => inferInstanceAs (Decidable (written = true))
  | .read .poll | .read (.line _) | .read .stop | .read .send | .read .deliver | .read (.visit _ _)
  | .read .sweepEnd | .start _ | .call _ _ | .close => isTrue trivial

/-- Every request among the messages is answered. -/
structure RequestsAnswered (msgs : List Response) (s : Client) : Prop where
  /-- There is one answer for each request, with its ID, in the order of arrival, and no other. All
  are written except for the one that the reader is about to write. -/
  each : (s.wire ++ s.reader.owed).map Outgoing.id = msgs.filterMap requestID
  /-- Writing it is the next step of the reader. -/
  next : ∀ out ∈ s.reader.owed,
    ∃ t, step s (.read (.answer true)) = some t ∧ t.wire = s.wire ++ [out] ∧ t.reader = .head
  /-- Nothing else keeps the reader from the next line. -/
  proceeds : s.reader.inLoop → s.reader = .head ∨ s.reader = .scanning ∨
    ∃ a t, step s (.read a) = some t ∧ t.reader = .head

section Steps

variable {s t : Client} {a : Act}

@[simp] theorem Reader.owed_noteStore (r : Reader) (k : Key) (ch : ℕ) :
    (r.noteStore k ch).owed = r.owed := by
  cases r <;> rfl

@[simp] theorem Reader.owed_noteDelete (r : Reader) (k : Key) : (r.noteDelete k).owed = r.owed := by
  cases r <;> rfl

/-- `dispatch` makes the reader owe the answer to the message, and writes nothing itself. -/
theorem dispatch_owed (s : Client) (msg : Response) :
    (dispatch s msg).wire = s.wire ∧ (dispatch s msg).reader.owed = (answerTo msg).toList := by
  unfold dispatch answerTo requestID
  cases hid : msg.id with
  | none =>
    have request : msg.isServerRequest = false := by simp [Response.isServerRequest, hid]
    simp only [request, Bool.false_eq_true, if_false]
    split_ifs
    · refine ⟨rfl, ?_⟩
      unfold handleNotification
      split
      · split <;> rfl
      · rfl
    · exact ⟨rfl, rfl⟩
  | some id =>
    dsimp only
    split_ifs with request
    · refine ⟨rfl, ?_⟩
      simp only [Option.bind_some]
      unfold handleServerRequest
      split_ifs
      · split <;> rfl
      · rfl
    · split <;> exact ⟨rfl, rfl⟩

/-- A step adds the answer to the message it reads to those that are written or owed. -/
theorem step_owed (h : step s a = some t) (writes : a.Writes) :
    t.wire ++ t.reader.owed = s.wire ++ s.reader.owed ++ (a.line.bind answerTo).toList := by
  cases a with
  | start kind | close =>
    cases h
    simp [Client.setInvocation, Act.line]
  | call c b =>
    obtain ⟨inv, -, hcall⟩ := Option.bind_eq_some_iff.mp h
    cases callStep_move hcall <;>
      simp [Client.setInvocation, Client.store, Client.delete, Act.line]
  | read b =>
    by_cases answers : ∃ written, b = .answer written
    · -- The one step that writes.
      obtain ⟨written, rfl⟩ := answers
      obtain rfl : written = true := writes
      simp only [step, readStep] at h
      split at h
      · rename_i hr
        cases h
        simp [hr, Reader.owed, Act.line]
      · cases h
    · have move := readStep_move (show readStep s b = some t from h)
      cases move with
      | answer => exact absurd ⟨_, rfl⟩ answers
      | @dispatch msg hr =>
        obtain ⟨hwire, howed⟩ := dispatch_owed s msg
        rw [hwire, howed, hr]
        simp [Reader.owed, Act.line]
      | leave hr | scan hr | skip hr | stop hr | reply hr | fail hr | deliver hr | drop hr
      | visitID hr | visitDelta hr | sweepEnd hr => simp [hr, Reader.owed, Act.line]

/-- In every run without failing writes, what is written or owed are the answers to the messages
read. -/
theorem run_owed {acts : List Act} (h : run step .new acts = some s)
    (writes : ∀ a ∈ acts, a.Writes) :
    s.wire ++ s.reader.owed = (received acts).filterMap answerTo := by
  refine Meets.history (fun past s => s.wire ++ s.reader.owed = (received past).filterMap answerTo)
    ?_ (Meets.of_forall writes) h rfl
  intro past s a t ih ok hs
  rw [step_owed hs ok, ih]
  cases hline : a.line with
  | none => simp [received, hline]
  | some msg => cases hanswer : answerTo msg <;> simp [received, hline, hanswer]

end Steps

/-! ## Who gets an answer -/

theorem answerTo_id {msg : Response} {out : Outgoing} (h : answerTo msg = some out) :
    requestID msg = some out.id := by
  obtain ⟨id, hid, hout⟩ := Option.bind_eq_some_iff.mp h
  rw [hid]
  unfold handleServerRequest at hout
  split_ifs at hout
  · split at hout
    · cases hout
      rfl
    · cases hout
  · cases hout
    rfl

/-- A request is answered unless it asks for a permission with parameters that do not decode. -/
theorem answerTo_isSome {msg : Response} (request : (requestID msg).isSome) :
    (answerTo msg).isSome ↔
      (msg.method = "session/request_permission" → msg.permission.isSome) := by
  obtain ⟨id, hid⟩ := Option.isSome_iff_exists.mp request
  unfold answerTo
  rw [hid, Option.bind_some]
  unfold handleServerRequest
  split_ifs with permission
  · cases hp : msg.permission <;> simp [Reader.owed, permission]
  · simp [Reader.owed, permission]

theorem requestID_isSome {msg : Response} : (requestID msg).isSome ↔ msg.isServerRequest := by
  unfold requestID
  split_ifs with h
  · simp only [h, iff_true]
    simp only [Response.isServerRequest, Bool.and_eq_true, decide_eq_true_eq] at h
    exact Option.isSome_iff_ne_none.mpr h.2
  · simp [h]

/-- Inside the loop the reader waits for a line or can go on to the head of the loop. -/
theorem reader_proceeds {s : Client} (inv : Inv s) (inLoop : s.reader.inLoop) :
    s.reader = .head ∨ s.reader = .scanning ∨
      ∃ a t, step s (.read a) = some t ∧ t.reader = .head := by
  cases hr : s.reader with
  | head => exact .inl rfl
  | scanning => exact .inr (.inl rfl)
  | sending ch msg =>
    -- The reply channel is empty, so the send does not block.
    obtain ⟨_, -, -, room, -⟩ := inv.targeted ch msg (by rw [hr]; rfl)
    refine .inr (.inr ⟨.send, ?_⟩)
    simp [step, readStep, hr, room]
  | delivering ch text =>
    refine .inr (.inr ⟨.deliver, ?_⟩)
    by_cases room : (s.delta ch).length < deltaCapacity <;> simp [step, readStep, hr, room]
  | answering out =>
    refine .inr (.inr ⟨.answer true, ?_⟩)
    simp [step, readStep, hr]
  | sweeping | failing | done =>
    rw [hr] at inLoop
    cases inLoop

/-- For every run, whatever the other goroutines do: every request of the peer is answered exactly
if the permission requests among them have well-typed parameters. -/
theorem requests_answered_iff {incoming : List Incoming} {acts : List Act} {s : Client}
    (h : run step .new acts = some s) (writes : ∀ a ∈ acts, a.Writes)
    (lines : received acts = incoming.map Incoming.response) :
    RequestsAnswered (received acts) s ↔ ∀ m ∈ incoming, m.msg.isServerRequest →
      m.msg.method = "session/request_permission" → WellTyped m.params := by
  have complete : (s.wire ++ s.reader.owed).map Outgoing.id =
      (received acts).filterMap requestID ↔ ∀ m ∈ incoming, m.msg.isServerRequest →
        m.msg.method = "session/request_permission" → WellTyped m.params := by
    rw [run_owed h writes, map_filterMap_eq_iff fun _ _ => answerTo_id, lines, List.forall_mem_map]
    refine forall₂_congr fun m _ => ?_
    rw [show m.msg.isServerRequest = m.response.isServerRequest from rfl, ← requestID_isSome,
      ← permissionParams_isSome]
    exact forall_congr' answerTo_isSome
  rw [← complete]
  refine ⟨RequestsAnswered.each, fun each => ⟨each, ?_, ?_⟩⟩
  · intro out howed
    cases hr : s.reader with
    | answering out' =>
      rw [hr] at howed
      obtain rfl := List.mem_singleton.mp howed
      exact ⟨{ s with wire := s.wire ++ [out], reader := .head },
        by simp [step, readStep, hr], rfl, rfl⟩
    | _ =>
      rw [hr] at howed
      cases howed
  · exact reader_proceeds (run_invariant Inv (fun _ _ _ hs => hs.step) h .new)

/-- The peer asks for a permission and calls an unknown method while a call waits for its reply. -/
def asked : List Incoming := [
  ⟨{ id := some 0, method := "session/request_permission" },
    some (.obj [("sessionId", .str "s"), ("options", .arr [])])⟩,
  ⟨{ method := "session/update" }, none⟩,
  ⟨{ id := some 0, method := "fs/read" }, some (.num 1)⟩,
  ⟨{ id := some 1 }, none⟩]

/-- What the reader does with one of these messages. -/
def Incoming.reads (m : Incoming) : List Act :=
  if m.msg.isServerRequest then
    [.read .poll, .read (.line (some m.response)), .read (.answer true)]
  else if m.msg.id = none then [.read .poll, .read (.line (some m.response))]
  else [.read .poll, .read (.line (some m.response)), .read .send]

def askedRun : List Act :=
  .start (.call "initialize") :: .call 0 .store :: .call 0 (.send none) ::
    asked.flatMap Incoming.reads

theorem requests_answered_iff_asked :
    ∃ s, run step .new askedRun = some s ∧ s.wire.map Outgoing.id = [0, 0] ∧
      (RequestsAnswered (received askedRun) s ↔ ∀ m ∈ asked, m.msg.isServerRequest →
        m.msg.method = "session/request_permission" → WellTyped m.params) := by
  have observed : (run step .new askedRun).map (·.wire.map Outgoing.id) = some [0, 0] := by decide
  obtain ⟨s, hs, wire⟩ := Option.map_eq_some_iff.mp observed
  exact ⟨s, hs, wire, requests_answered_iff hs (by decide) (by decide)⟩

/-- A permission request without parameters. -/
def bare : Incoming := ⟨{ id := some 0, method := "session/request_permission" }, none⟩

/-- The reader drops the request and waits for the next line. -/
theorem permission_unanswered :
    ∃ s, run step .new [.read .poll, .read (.line (some bare.response)), .read .poll] = some s ∧
      bare.msg.isServerRequest ∧ s.wire = [] ∧ s.reader = .scanning ∧
      ¬ RequestsAnswered [bare.response] s := by
  refine ⟨{ Client.new with reader := .scanning }, rfl, by decide, rfl, rfl, ?_⟩
  intro answered
  exact absurd answered.each (by decide)

end Daedalus.ACP
