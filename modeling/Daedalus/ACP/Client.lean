import Daedalus.Foundation.Run
import Daedalus.Foundation.SyncMap
import Daedalus.Basic

/-!
# The ACP client

`internal/acp/client.go` and `jsonrpc.go`. Any number of `call` and `Prompt` invocations share a
connection with one reader goroutine. They meet in the map `pending`, which holds the reply channel
of each request ID and the delta channel of each session. Every step below is one operation on the
map, on a channel or on the connection, so every interleaving is a run. What the peer sends,
whether a write succeeds and when a context is cancelled is open.

A line is given by what it decodes to, and the raw parts of a message by what the code that reads
them decodes. `Initialize`, `NewSession` and `CancelSession` are uses of `call`.
-/
namespace Daedalus.ACP

open Foundation

structure RPCError where
  code : ℤ
  message : String
  deriving DecidableEq, Repr

/-- `SessionUpdateParams`. -/
structure SessionUpdate where
  sessionID : String
  kind : String
  text : String
  deriving DecidableEq, Repr

/-- A JSON-RPC message from the peer. `content` is the result decoded as a prompt result, and
`update` and `permission` are the parameters decoded as an update and as the session of a
permission request; `none` when they do not decode. -/
structure Response where
  id : Option Int64 := none
  content : Except GoError String := .ok ""
  error : Option RPCError := none
  method : String := ""
  update : Option SessionUpdate := none
  permission : Option String := none
  deriving DecidableEq

def Response.isNotification (r : Response) : Bool := r.id = none && r.method ≠ ""

def Response.isServerRequest (r : Response) : Bool := r.method ≠ "" && r.id ≠ none

/-- What the reader sends to every pending call when the connection is gone. -/
def connectionClosed : Response where
  error := some ⟨-32000, "connection closed"⟩

/-- The keys of `pending`: a request ID, or `"delta:"` and a session ID. -/
inductive Key where
  | id (n : Int64)
  | delta (sessionID : String)
  deriving DecidableEq, Repr

inductive Kind where
  | call (method : String)
  | prompt (sessionID : String)
  deriving DecidableEq, Repr

/-- What an invocation returns without error: `call` the response, `Prompt` the text. -/
inductive Answer where
  | response (resp : Response)
  | text (content : String)
  deriving DecidableEq

/-- Where an invocation is. The deletions on the way out are steps of their own. -/
inductive PC where
  | store
  | storeDelta
  | send
  | wait
  | draining (resp : Response)
  | deleteID (result : Except GoError Answer)
  | deleteDelta (result : Except GoError Answer)
  | returned (result : Except GoError Answer)
  deriving DecidableEq

/-- A `call` or `Prompt` in progress. `consumed` is auxiliary: the responses it has taken from its
reply channel. -/
structure Invocation where
  kind : Kind
  id : Int64
  pc : PC
  deltas : List String := []
  consumed : List Response := []

/-- What the client writes in answer to the peer's requests. -/
inductive Outgoing where
  | result (id : Int64) (optionID : String)
  | error (id : Int64) (code : ℤ) (message : String)
  deriving DecidableEq, Repr

/-- Where `readLoop` is: at the head of the loop, in `Scan`, about to send to a reply channel, to
send to a delta channel or to write an answer, in the sweep over `pending`, or gone. -/
inductive Reader where
  | head
  | scanning
  | sending (ch : ℕ) (msg : Response)
  | delivering (ch : ℕ) (text : String)
  | answering (out : Outgoing)
  | sweeping (it : Iteration Key ℕ)
  | failing (ch : ℕ) (it : Iteration Key ℕ)
  | done

/-- The client. The channels of an invocation are named after it. A reply channel has room for one
response. -/
structure Client where
  nextID : Int64
  pending : Table Key ℕ
  reply : ℕ → Option Response
  delta : ℕ → List String
  invocations : ℕ → Option Invocation
  next : ℕ
  reader : Reader
  closed : Bool
  wire : List Outgoing

/-- The client when `Connect` has started the reader. -/
def Client.new : Client where
  nextID := 0
  pending := []
  reply _ := none
  delta _ := []
  invocations _ := none
  next := 0
  reader := .head
  closed := false
  wire := []

/-- The capacity of a delta channel. -/
def deltaCapacity : ℕ := 256

/-- A sweep notices what others store and delete. -/
def Reader.noteStore (k : Key) (ch : ℕ) : Reader → Reader
  | .sweeping it => .sweeping (it.noteStore k ch)
  | .failing c it => .failing c (it.noteStore k ch)
  | r => r

def Reader.noteDelete (k : Key) : Reader → Reader
  | .sweeping it => .sweeping (it.noteDelete k)
  | .failing c it => .failing c (it.noteDelete k)
  | r => r

namespace Client

def store (s : Client) (k : Key) (ch : ℕ) : Client :=
  { s with pending := s.pending.store k ch, reader := s.reader.noteStore k ch }

def delete (s : Client) (k : Key) : Client :=
  { s with pending := s.pending.delete k, reader := s.reader.noteDelete k }

def setInvocation (s : Client) (c : ℕ) (inv : Invocation) : Client :=
  { s with invocations := Function.update s.invocations c (some inv) }

theorem setInvocation_self (s : Client) (c : ℕ) (inv : Invocation) :
    (s.setInvocation c inv).invocations c = some inv := Function.update_self ..

theorem setInvocation_other {s : Client} {c d : ℕ} {inv other : Invocation} (hne : d ≠ c)
    (h : s.invocations c = some inv) : (s.setInvocation d other).invocations c = some inv :=
  (Function.update_of_ne hne.symm ..).trans h

end Client

/-! ## The invocations -/

def rpcError (err : RPCError) : GoError := .new err.message

/-- What `call` makes of a response. -/
def callResult (resp : Response) : Except GoError Answer :=
  match resp.error with
  | some err => .error (rpcError err)
  | none => .ok (.response resp)

/-- What `Prompt` makes of a response and the deltas it has collected. -/
def promptResult (resp : Response) (deltas : List String) : Except GoError Answer :=
  match resp.error with
  | some err =>
    .error (.new ("acp: session/prompt: rpc error " ++ toString err.code ++ ": " ++ err.message))
  | none =>
    match resp.content with
    | .error err =>
      if deltas ≠ [] then .ok (.text (String.join deltas))
      else .error (.wrap "acp: session/prompt: unmarshal result" err)
    | .ok content => .ok (.text (if content ≠ "" then content else String.join deltas))

def sendError (kind : Kind) (err : GoError) : GoError :=
  match kind with
  | .call _ => err
  | .prompt _ => .wrap "acp: session/prompt: send" err

inductive CallAct where
  /-- `pending.Store(id, replyCh)`. -/
  | store
  /-- `pending.Store(deltaKey, deltaCh)`. -/
  | storeDelta
  /-- `sendRequest` returns. -/
  | send (err : Option GoError)
  | ctxDone (err : CtxErr)
  | receiveDelta
  | receiveReply
  /-- One turn of the drain loop. -/
  | drain
  | deleteID
  | deleteDelta

/-- One step of invocation `c`, which is at `inv`. -/
def callStep (s : Client) (c : ℕ) (inv : Invocation) : CallAct → Option Client
  | .store =>
    match inv.pc with
    | .store =>
      let pc := match inv.kind with
        | .call _ => PC.send
        | .prompt _ => PC.storeDelta
      some ((s.store (.id inv.id) c).setInvocation c { inv with pc })
    | _ => none
  | .storeDelta =>
    match inv.pc, inv.kind with
    | .storeDelta, .prompt sessionID =>
      some ((s.store (.delta sessionID) c).setInvocation c { inv with pc := .send })
    | _, _ => none
  | .send err =>
    match inv.pc, err with
    | .send, none => some (s.setInvocation c { inv with pc := .wait })
    | .send, some err =>
      some (s.setInvocation c { inv with pc := .deleteID (.error (sendError inv.kind err)) })
    | _, _ => none
  | .ctxDone err =>
    match inv.pc with
    | .wait => some (s.setInvocation c { inv with pc := .deleteID (.error err.toError) })
    | _ => none
  | .receiveDelta =>
    match inv.pc, inv.kind, s.delta c with
    | .wait, .prompt _, text :: rest =>
      some ({ s with delta := Function.update s.delta c rest }.setInvocation c
        { inv with deltas := inv.deltas ++ [text] })
    | _, _, _ => none
  | .receiveReply =>
    match inv.pc, s.reply c with
    | .wait, some resp =>
      let pc := match inv.kind with
        | .call _ => PC.deleteID (callResult resp)
        | .prompt _ => PC.draining resp
      some ({ s with reply := Function.update s.reply c none }.setInvocation c
        { inv with pc, consumed := inv.consumed ++ [resp] })
    | _, _ => none
  | .drain =>
    match inv.pc, s.delta c with
    | .draining _, text :: rest =>
      some ({ s with delta := Function.update s.delta c rest }.setInvocation c
        { inv with deltas := inv.deltas ++ [text] })
    | .draining resp, [] =>
      some (s.setInvocation c { inv with pc := .deleteDelta (promptResult resp inv.deltas) })
    | _, _ => none
  | .deleteID =>
    match inv.pc with
    | .deleteID result =>
      let pc := match inv.kind with
        | .call _ => PC.returned result
        | .prompt _ => PC.deleteDelta result
      some ((s.delete (.id inv.id)).setInvocation c { inv with pc })
    | _ => none
  | .deleteDelta =>
    match inv.pc, inv.kind with
    | .deleteDelta result, .prompt sessionID =>
      some ((s.delete (.delta sessionID)).setInvocation c { inv with pc := .returned result })
    | _, _ => none

/-! ## The reader -/

/-- Server requests are approved or refused; permission parameters that do not decode are not
answered. -/
def handleServerRequest (id : Int64) (msg : Response) : Reader :=
  if msg.method = "session/request_permission" then
    match msg.permission with
    | some _ => .answering (.result id "allow_once")
    | none => .head
  else .answering (.error id (-32601) ("method not found: " ++ msg.method))

/-- The text that a notification carries for its session, if any. -/
def messageChunk (msg : Response) : Option (String × String) :=
  if msg.method = "session/update" then
    msg.update.bind fun u =>
      if u.kind = "agent_message_chunk" ∧ u.text ≠ "" then some (u.sessionID, u.text) else none
  else none

/-- `handleNotification`, up to the send to the delta channel. -/
def handleNotification (pending : Table Key ℕ) (msg : Response) : Reader :=
  match messageChunk msg with
  | some (sessionID, text) =>
    match pending.load (.delta sessionID) with
    | some ch => .delivering ch text
    | none => .head
  | none => .head

/-- `dispatch`, up to the send or write it leads to. -/
def dispatch (s : Client) (msg : Response) : Client :=
  match msg.id with
  | some id =>
    if msg.isServerRequest then { s with reader := handleServerRequest id msg }
    else match s.pending.load (.id id) with
      | some ch => { s with pending := s.pending.delete (.id id), reader := .sending ch msg }
      | none => { s with reader := .head }
  | none =>
    if msg.isNotification then { s with reader := handleNotification s.pending msg }
    else { s with reader := .head }

inductive ReadAct where
  /-- The `select` at the head of the loop. -/
  | poll
  /-- `Scan` returns a line; `none` when it is empty or does not parse. -/
  | line (msg : Option Response)
  /-- `Scan` returns false. -/
  | stop
  /-- The send to a reply channel, in `dispatch` or in the sweep. -/
  | send
  /-- The send to a delta channel, which drops the text when the channel is full. -/
  | deliver
  /-- The answer to a request of the peer is written, or writing fails. -/
  | answer (written : Bool)
  /-- The sweep visits an entry of `pending`. -/
  | visit (k : Key) (ch : ℕ)
  | sweepEnd

def readStep (s : Client) : ReadAct → Option Client
  | .poll =>
    match s.reader with
    | .head => some { s with reader := if s.closed then .done else .scanning }
    | _ => none
  | .line msg =>
    match s.reader, msg with
    | .scanning, some msg => some (dispatch s msg)
    | .scanning, none => some { s with reader := .head }
    | _, _ => none
  | .stop =>
    match s.reader with
    | .scanning => some { s with reader := .sweeping (.start s.pending) }
    | _ => none
  | .send =>
    match s.reader with
    | .sending ch msg =>
      if s.reply ch = none then
        some { s with reply := Function.update s.reply ch (some msg), reader := .head }
      else none
    | .failing ch it =>
      if s.reply ch = none then
        some { s with
          reply := Function.update s.reply ch (some connectionClosed), reader := .sweeping it }
      else none
    | _ => none
  | .deliver =>
    match s.reader with
    | .delivering ch text =>
      if (s.delta ch).length < deltaCapacity then
        some { s with delta := Function.update s.delta ch (s.delta ch ++ [text]), reader := .head }
      else some { s with reader := .head }
    | _ => none
  | .answer written =>
    match s.reader with
    | .answering out =>
      some { s with wire := if written then s.wire ++ [out] else s.wire, reader := .head }
    | _ => none
  | .visit k ch =>
    match s.reader with
    | .sweeping it => (it.visit k ch).map fun it' =>
      match k with
      | .id _ => { s with reader := .failing ch it' }
      | .delta _ => { s with reader := .sweeping it' }
    | _ => none
  | .sweepEnd =>
    match s.reader with
    | .sweeping it => if it.finished then some { s with reader := .done } else none
    | _ => none

/-! ## The whole client -/

inductive Act where
  /-- An invocation begins and allocates its ID. -/
  | start (kind : Kind)
  | call (c : ℕ) (a : CallAct)
  | read (a : ReadAct)
  | close

def step (s : Client) : Act → Option Client
  | .start kind =>
    let id := s.nextID + 1
    some ({ s with nextID := id, next := s.next + 1 }.setInvocation s.next
      { kind, id, pc := .store })
  | .call c a => (s.invocations c).bind fun inv => callStep s c inv a
  | .read a => readStep s a
  | .close => some { s with closed := true }

/-! ## What a step can do -/

/-- The steps of invocation `c`, with their guards. -/
inductive CallMove (s : Client) (c : ℕ) (inv : Invocation) : CallAct → Client → Prop
  | store {pc : PC} (hpc : inv.pc = .store) (next : pc = .send ∨ pc = .storeDelta) :
    CallMove s c inv .store ((s.store (.id inv.id) c).setInvocation c { inv with pc })
  | storeDelta {sessionID : String} (hpc : inv.pc = .storeDelta)
    (kind : inv.kind = .prompt sessionID) :
    CallMove s c inv .storeDelta
      ((s.store (.delta sessionID) c).setInvocation c { inv with pc := .send })
  | sent (hpc : inv.pc = .send) :
    CallMove s c inv (.send none) (s.setInvocation c { inv with pc := .wait })
  /-- The request is not written, or the context is done. -/
  | fail {a : CallAct} {err : GoError} (hpc : inv.pc = .send ∨ inv.pc = .wait)
    (act : (∃ e, a = .send (some e)) ∨ ∃ e, a = .ctxDone e) :
    CallMove s c inv a (s.setInvocation c { inv with pc := .deleteID (.error err) })
  /-- A delta is received, while waiting or in the drain loop. -/
  | takeDelta {a : CallAct} {text : String} {rest : List String}
    (hpc : inv.pc = .wait ∨ ∃ resp, inv.pc = .draining resp) (hdelta : s.delta c = text :: rest)
    (act : a = .receiveDelta ∨ a = .drain) :
    CallMove s c inv a ({ s with delta := Function.update s.delta c rest }.setInvocation c
      { inv with deltas := inv.deltas ++ [text] })
  | takeReply {resp : Response} {pc : PC} (hpc : inv.pc = .wait) (hreply : s.reply c = some resp)
    (next : (pc = .deleteID (callResult resp) ∧ ∃ method, inv.kind = .call method) ∨
      (pc = .draining resp ∧ ∃ sessionID, inv.kind = .prompt sessionID)) :
    CallMove s c inv .receiveReply
      ({ s with reply := Function.update s.reply c none }.setInvocation c
      { inv with pc, consumed := inv.consumed ++ [resp] })
  | drained {resp : Response} (hpc : inv.pc = .draining resp) (hdelta : s.delta c = []) :
    CallMove s c inv .drain
      (s.setInvocation c { inv with pc := .deleteDelta (promptResult resp inv.deltas) })
  | deleteID {result : Except GoError Answer} {pc : PC} (hpc : inv.pc = .deleteID result)
    (next : pc = .returned result ∨ pc = .deleteDelta result) :
    CallMove s c inv .deleteID ((s.delete (.id inv.id)).setInvocation c { inv with pc })
  | deleteDelta {sessionID : String} {result : Except GoError Answer}
    (hpc : inv.pc = .deleteDelta result) (kind : inv.kind = .prompt sessionID) :
    CallMove s c inv .deleteDelta
      ((s.delete (.delta sessionID)).setInvocation c { inv with pc := .returned result })

/-- What `dispatch` can do with a message: send it to the caller it answers, deliver a chunk, answer
a request, or nothing. -/
inductive Dispatched (s : Client) (msg : Response) : Client → Prop
  | reply {id : Int64} {ch : ℕ} (hid : msg.id = some id)
    (found : s.pending.load (.id id) = some ch) :
    Dispatched s msg { s with pending := s.pending.delete (.id id), reader := .sending ch msg }
  | chunk {sessionID text : String} {ch : ℕ} (hchunk : messageChunk msg = some (sessionID, text))
    (found : s.pending.load (.delta sessionID) = some ch) :
    Dispatched s msg { s with reader := .delivering ch text }
  | request {out : Outgoing} : Dispatched s msg { s with reader := .answering out }
  | ignored : Dispatched s msg { s with reader := .head }

/-- The steps of the reader, with their guards. -/
inductive ReadMove (s : Client) : ReadAct → Client → Prop
  /-- The reader returns between two messages. -/
  | leave (hr : s.reader = .head) (closed : s.closed = true) :
    ReadMove s .poll { s with reader := .done }
  | scan (hr : s.reader = .head) (isOpen : s.closed = false) :
    ReadMove s .poll { s with reader := .scanning }
  | dispatch {msg : Response} (hr : s.reader = .scanning) :
    ReadMove s (.line (some msg)) (dispatch s msg)
  | skip (hr : s.reader = .scanning) : ReadMove s (.line none) { s with reader := .head }
  | stop (hr : s.reader = .scanning) :
    ReadMove s .stop { s with reader := .sweeping (.start s.pending) }
  | reply {ch : ℕ} {msg : Response} (hr : s.reader = .sending ch msg) (room : s.reply ch = none) :
    ReadMove s .send { s with reply := Function.update s.reply ch (some msg), reader := .head }
  | fail {ch : ℕ} {it : Iteration Key ℕ} (hr : s.reader = .failing ch it)
    (room : s.reply ch = none) :
    ReadMove s .send { s with
      reply := Function.update s.reply ch (some connectionClosed), reader := .sweeping it }
  | deliver {ch : ℕ} {text : String} (hr : s.reader = .delivering ch text)
    (room : (s.delta ch).length < deltaCapacity) :
    ReadMove s .deliver
      { s with delta := Function.update s.delta ch (s.delta ch ++ [text]), reader := .head }
  | drop {ch : ℕ} {text : String} (hr : s.reader = .delivering ch text)
    (full : ¬ (s.delta ch).length < deltaCapacity) :
    ReadMove s .deliver { s with reader := .head }
  | answer {out : Outgoing} {wire : List Outgoing} {written : Bool}
    (hr : s.reader = .answering out) : ReadMove s (.answer written) { s with wire, reader := .head }
  | visitID {n : Int64} {ch : ℕ} {it it' : Iteration Key ℕ} (hr : s.reader = .sweeping it)
    (visit : it.visit (.id n) ch = some it') :
    ReadMove s (.visit (.id n) ch) { s with reader := .failing ch it' }
  | visitDelta {sessionID : String} {ch : ℕ} {it it' : Iteration Key ℕ}
    (hr : s.reader = .sweeping it)
    (visit : it.visit (.delta sessionID) ch = some it') :
    ReadMove s (.visit (.delta sessionID) ch) { s with reader := .sweeping it' }
  | sweepEnd {it : Iteration Key ℕ} (hr : s.reader = .sweeping it) (finished : it.finished) :
    ReadMove s .sweepEnd { s with reader := .done }

section Moves

variable {s t : Client} {c : ℕ} {inv : Invocation}

theorem callStep_move {a : CallAct} (h : callStep s c inv a = some t) : CallMove s c inv a t := by
  cases a with
  | store =>
    simp only [callStep] at h
    split at h
    · rename_i hpc
      cases h
      refine .store hpc ?_
      cases inv.kind <;> simp
    · cases h
  | storeDelta =>
    simp only [callStep] at h
    split at h
    · rename_i hpc hkind
      cases h
      exact .storeDelta hpc hkind
    · cases h
  | send err =>
    simp only [callStep] at h
    split at h
    · rename_i hpc
      cases h
      exact .sent hpc
    · rename_i hpc
      cases h
      exact .fail (.inl hpc) (.inl ⟨_, rfl⟩)
    · cases h
  | ctxDone err =>
    simp only [callStep] at h
    split at h
    · rename_i hpc
      cases h
      exact .fail (.inr hpc) (.inr ⟨err, rfl⟩)
    · cases h
  | receiveDelta =>
    simp only [callStep] at h
    split at h
    · rename_i hpc _ hdelta
      cases h
      exact .takeDelta (.inl hpc) hdelta (.inl rfl)
    · cases h
  | receiveReply =>
    simp only [callStep] at h
    split at h
    · rename_i hpc hreply
      cases h
      refine .takeReply hpc hreply ?_
      cases inv.kind <;> simp
    · cases h
  | drain =>
    simp only [callStep] at h
    split at h
    · rename_i resp text rest hpc hdelta
      cases h
      exact .takeDelta (.inr ⟨resp, hpc⟩) hdelta (.inr rfl)
    · rename_i hpc hdelta
      cases h
      exact .drained hpc hdelta
    · cases h
  | deleteID =>
    simp only [callStep] at h
    split at h
    · rename_i hpc
      cases h
      refine .deleteID hpc ?_
      cases inv.kind <;> simp
    · cases h
  | deleteDelta =>
    simp only [callStep] at h
    split at h
    · rename_i hpc hkind
      cases h
      exact .deleteDelta hpc hkind
    · cases h

theorem dispatched (s : Client) (msg : Response) : Dispatched s msg (dispatch s msg) := by
  unfold dispatch
  split
  · rename_i id hid
    split_ifs
    · unfold handleServerRequest
      split_ifs
      · cases msg.permission with
        | some _ => exact .request
        | none => exact .ignored
      · exact .request
    · split
      · rename_i found
        exact .reply hid found
      · exact .ignored
  · split_ifs
    · unfold handleNotification
      split
      · rename_i hchunk
        split
        · rename_i found
          exact .chunk hchunk found
        · exact .ignored
      · exact .ignored
    · exact .ignored

theorem readStep_move {a : ReadAct} (h : readStep s a = some t) : ReadMove s a t := by
  cases a with
  | poll =>
    simp only [readStep] at h
    split at h
    · rename_i hr
      split_ifs at h with hclosed
      · cases h
        exact .leave hr hclosed
      · cases h
        exact .scan hr (by simpa using hclosed)
    · cases h
  | line msg =>
    simp only [readStep] at h
    split at h
    · rename_i hr
      cases h
      exact .dispatch hr
    · rename_i hr
      cases h
      exact .skip hr
    · cases h
  | stop =>
    simp only [readStep] at h
    split at h
    · rename_i hr
      cases h
      exact .stop hr
    · cases h
  | send =>
    simp only [readStep] at h
    split at h
    · rename_i hr
      split_ifs at h with room
      cases h
      exact .reply hr room
    · rename_i hr
      split_ifs at h with room
      cases h
      exact .fail hr room
    · cases h
  | deliver =>
    simp only [readStep] at h
    split at h
    · rename_i hr
      split_ifs at h with room
      · cases h
        exact .deliver hr room
      · cases h
        exact .drop hr room
    · cases h
  | answer written =>
    simp only [readStep] at h
    split at h
    · rename_i hr
      cases h
      exact .answer hr
    · cases h
  | visit k ch =>
    simp only [readStep] at h
    split at h
    · rename_i hr
      obtain ⟨it', hvisit, rfl⟩ := Option.map_eq_some_iff.mp h
      cases k with
      | id n => exact .visitID hr hvisit
      | delta sessionID => exact .visitDelta hr hvisit
    · cases h
  | sweepEnd =>
    simp only [readStep] at h
    split at h
    · rename_i hr
      split_ifs at h with finished
      cases h
      exact .sweepEnd hr finished
    · cases h

end Moves

end Daedalus.ACP
