import Daedalus.ACP.Registration

/-!
# Streaming

The reader hands the text of a session's message chunks to the prompt of that session through a
channel of 256 texts, and drops a text that finds the channel full. What the prompt has received,
followed by what is still in its channel, is at every moment what the reader found room for. The
prompt takes the response only after the reader has handled the chunks before it, and empties the
channel then, so nothing that found room is lost, comes twice or out of order.
-/
namespace Daedalus.ACP

open Foundation
open Client (setInvocation_self setInvocation_other)

/-! ## What arrives and what is offered -/

/-- The text of a message chunk for the session, when the reader reads one. -/
def chunkOf (sessionID : String) : Act → Option String
  | .read (.line (some msg)) =>
    if msg.id = none ∧ msg.method = "session/update" then
      msg.update.bind fun u =>
        if u.sessionID = sessionID ∧ u.kind = "agent_message_chunk" then some u.text else none
    else none
  | _ => none

/-- The message chunks of the session, in arrival order. -/
def arrivals (sessionID : String) (acts : List Act) : List String :=
  acts.filterMap (chunkOf sessionID)

theorem arrivals_snoc (sessionID : String) (past : List Act) (a : Act) :
    arrivals sessionID (past ++ [a]) = arrivals sessionID past ++ (chunkOf sessionID a).toList := by
  cases h : chunkOf sessionID a <;> simp [arrivals, h]

/-- The reader's attempts to send to the delta channel of `c`: the text, and whether there is room.
-/
def offers (c : ℕ) (s : Client) : Act → List (String × Bool)
  | .read .deliver =>
    match s.reader with
    | .delivering ch text => if ch = c then [(text, (s.delta ch).length < deltaCapacity)] else []
    | _ => []
  | _ => []

/-- The texts that found room. -/
def kept (offered : List (String × Bool)) : List String := (offered.filter (·.2)).map (·.1)

@[simp] theorem kept_append (xs ys : List (String × Bool)) :
    kept (xs ++ ys) = kept xs ++ kept ys := by
  simp [kept]

/-! ## Until the response -/

/-- Every other prompt of the session has returned. -/
def OnlyPrompt (c : ℕ) (sessionID : String) (s : Client) (_ : Act) : Prop :=
  ∀ d < s.next, ∀ inv ∈ s.invocations d, d ≠ c → inv.kind = .prompt sessionID → inv.pc.finished

instance (c : ℕ) (sessionID : String) (s : Client) (a : Act) :
    Decidable (OnlyPrompt c sessionID s a) :=
  inferInstanceAs (Decidable (∀ d < s.next, ∀ inv ∈ s.invocations d, _ → _ → _))

/-- Prompt `c` since it registered its delta channel, in terms of the actions and the offers since
then. -/
structure Collecting (c : ℕ) (sessionID : String) (past : List Act) (seen : List (String × Bool))
    (s : Client) (inv : Invocation) : Prop where
  present : s.invocations c = some inv
  kind : inv.kind = .prompt sessionID
  registered : inv.pc.registered
  /-- What was received and what is in the channel is what found room. -/
  conserved : inv.deltas ++ s.delta c = kept seen
  /-- Until it returns, the reader finds its channel, -/
  found : inv.pc.finished = false → s.pending.load (.delta sessionID) = some c
  /-- and every text that arrives is offered. -/
  offered : inv.pc.finished = false →
    seen.map (·.1) ++ s.reader.inFlight c = (arrivals sessionID past).filter (· ≠ "")

section Collecting

variable {s t : Client} {c : ℕ} {sessionID : String} {past : List Act}
  {seen : List (String × Bool)} {inv inv' : Invocation}

/-- A step that neither brings a text for the session nor moves one. -/
theorem Collecting.frame {a : Act} (h : Collecting c sessionID past seen s inv)
    (quiet : chunkOf sessionID a = none) (unoffered : offers c s a = [])
    (hc : t.invocations c = some inv') (hkind : inv'.kind = inv.kind)
    (hregistered : inv'.pc.registered)
    (hconserved : inv'.deltas ++ t.delta c = inv.deltas ++ s.delta c)
    (hflight : t.reader.inFlight c = s.reader.inFlight c)
    (hfound : inv'.pc.finished = false → inv.pc.finished = false ∧
      t.pending.load (.delta sessionID) = s.pending.load (.delta sessionID)) :
    Collecting c sessionID (past ++ [a]) (seen ++ offers c s a) t inv' := by
  have same : arrivals sessionID (past ++ [a]) = arrivals sessionID past := by
    simp [arrivals_snoc, quiet]
  rw [unoffered, List.append_nil]
  refine ⟨hc, hkind.trans h.kind, hregistered, hconserved.trans h.conserved, ?_, ?_⟩
  · intro hunfinished
    obtain ⟨hunfinished, hload⟩ := hfound hunfinished
    exact hload.trans (h.found hunfinished)
  · intro hunfinished
    rw [hflight, same]
    exact h.offered (hfound hunfinished).1

/-- The steps of the prompt itself. -/
theorem Collecting.own {a : CallAct} (h : Collecting c sessionID past seen s inv)
    (hs : callStep s c inv a = some t) :
    ∃ inv',
      Collecting c sessionID (past ++ [.call c a]) (seen ++ offers c s (.call c a)) t inv' := by
  have hregistered := h.registered
  cases callStep_move hs with
  | store hpc | storeDelta hpc => simp [hpc, PC.registered] at hregistered
  | sent hpc =>
    exact ⟨_, h.frame rfl rfl (setInvocation_self ..) rfl rfl rfl rfl
      fun _ => ⟨by simp [hpc, PC.finished], rfl⟩⟩
  | fail hpc =>
    refine ⟨_, h.frame rfl rfl (setInvocation_self ..) rfl rfl rfl rfl fun _ => ⟨?_, rfl⟩⟩
    rcases hpc with hpc | hpc <;> simp [hpc, PC.finished]
  | takeDelta hpc hdelta =>
    refine ⟨_, h.frame rfl rfl (setInvocation_self ..) rfl hregistered ?_ rfl fun hf => ⟨hf, rfl⟩⟩
    simp [Client.setInvocation, hdelta]
  | takeReply hpc hreply next =>
    refine ⟨_, h.frame rfl rfl (setInvocation_self ..) rfl ?_ rfl rfl
      fun _ => ⟨by simp [hpc, PC.finished], rfl⟩⟩
    rcases next with ⟨rfl, -⟩ | ⟨rfl, -⟩ <;> rfl
  | drained hpc hdelta =>
    exact ⟨_, h.frame rfl rfl (setInvocation_self ..) rfl rfl rfl rfl
      fun _ => ⟨by simp [hpc, PC.finished], rfl⟩⟩
  | deleteID hpc next =>
    refine ⟨_, h.frame rfl rfl (setInvocation_self ..) rfl ?_ rfl ?_
      fun _ => ⟨by simp [hpc, PC.finished], ?_⟩⟩
    · rcases next with rfl | rfl <;> rfl
    · simp [Client.setInvocation, Client.delete]
    · simp [Client.setInvocation, Client.delete, Table.load_delete]
  | deleteDelta hpc kind =>
    refine ⟨_, h.frame rfl rfl (setInvocation_self ..) rfl rfl rfl ?_ fun hf => ?_⟩
    · simp [Client.setInvocation, Client.delete]
    · simp [PC.finished] at hf

/-- The steps of another invocation. If it is a prompt of the same session it has returned. -/
theorem Collecting.other {a : CallAct} {d : ℕ} {e : Invocation}
    (h : Collecting c sessionID past seen s inv)
    (corr : Inv s) (hdc : d ≠ c) (he : s.invocations d = some e)
    (only : OnlyPrompt c sessionID s (.call d a)) (hs : callStep s d e a = some t) :
    Collecting c sessionID (past ++ [.call d a]) (seen ++ offers c s (.call d a)) t inv := by
  have returned := only d (corr.lt_next he) e he hdc
  cases callStep_move hs with
  | store hpc =>
    refine h.frame rfl rfl (setInvocation_other hdc h.present) rfl h.registered rfl ?_
      fun hf => ⟨hf, ?_⟩
    · simp [Client.setInvocation, Client.store]
    · simp [Client.setInvocation, Client.store, Table.load_store]
  | @storeDelta x hpc kind =>
    have hx : sessionID ≠ x := by
      rintro rfl
      simpa [hpc, PC.finished] using returned kind
    refine h.frame rfl rfl (setInvocation_other hdc h.present) rfl h.registered rfl ?_
      fun hf => ⟨hf, ?_⟩
    · simp [Client.setInvocation, Client.store]
    · simp [Client.setInvocation, Client.store, Table.load_store, hx]
  | sent | fail | takeReply | drained =>
    exact h.frame rfl rfl (setInvocation_other hdc h.present) rfl h.registered rfl rfl
      fun hf => ⟨hf, rfl⟩
  | takeDelta =>
    refine h.frame rfl rfl (setInvocation_other hdc h.present) rfl h.registered ?_ rfl
      fun hf => ⟨hf, rfl⟩
    simp [Client.setInvocation, hdc.symm]
  | deleteID hpc =>
    refine h.frame rfl rfl (setInvocation_other hdc h.present) rfl h.registered rfl ?_
      fun hf => ⟨hf, ?_⟩
    · simp [Client.setInvocation, Client.delete]
    · simp [Client.setInvocation, Client.delete, Table.load_delete]
  | @deleteDelta x result hpc kind =>
    have hx : sessionID ≠ x := by
      rintro rfl
      simpa [hpc, PC.finished] using returned kind
    refine h.frame rfl rfl (setInvocation_other hdc h.present) rfl h.registered rfl ?_
      fun hf => ⟨hf, ?_⟩
    · simp [Client.setInvocation, Client.delete]
    · simp [Client.setInvocation, Client.delete, Table.load_delete, hx]

/-- The text that a notification carries for the session; empty texts are not delivered. -/
theorem chunkOf_eq_messageChunk {msg : Response} (hid : msg.id = none) (sessionID : String) :
    (chunkOf sessionID (.read (.line (some msg)))).toList.filter (· ≠ "") =
      (((messageChunk msg).filter (·.1 = sessionID)).map (·.2)).toList := by
  simp only [chunkOf, messageChunk, hid, true_and]
  by_cases hmethod : msg.method = "session/update"
  · cases hupdate : msg.update with
    | none => simp [hmethod]
    | some u =>
      by_cases hkind : u.kind = "agent_message_chunk" <;> by_cases htext : u.text = "" <;>
        by_cases hsession : u.sessionID = sessionID <;>
          simp [hmethod, hkind, htext, hsession, Option.filter]
  · simp [hmethod]

theorem inFlight_handleServerRequest (id : Int64) (msg : Response) (d : ℕ) :
    (handleServerRequest id msg).inFlight d = [] := by
  unfold handleServerRequest
  split_ifs
  · split <;> rfl
  · rfl

theorem inFlight_handleNotification_of_chunk {pending : Table Key ℕ} {msg : Response}
    {x text : String}
    (hchunk : messageChunk msg = some (x, text)) (c : ℕ) :
    (handleNotification pending msg).inFlight c =
      if pending.load (.delta x) = some c then [text] else [] := by
  simp only [handleNotification, hchunk]
  cases pending.load (.delta x) <;> simp [Reader.inFlight]

/-- A message chunk is taken to the channel that is registered for its session. -/
theorem inFlight_dispatch (h : Streams s) (hc : s.invocations c = some inv)
    (kind : inv.kind = .prompt sessionID) (msg : Response) :
    (dispatch s msg).reader.inFlight c = if s.pending.load (.delta sessionID) = some c then
      (chunkOf sessionID (.read (.line (some msg)))).toList.filter (· ≠ "") else [] := by
  cases hid : msg.id with
  | some id =>
    have silent : chunkOf sessionID (.read (.line (some msg))) = none := by simp [chunkOf, hid]
    have idle : (dispatch s msg).reader.inFlight c = [] := by
      simp only [dispatch, hid]
      split_ifs
      · exact inFlight_handleServerRequest id msg c
      · cases s.pending.load (.id id) <;> rfl
    simp [idle, silent]
  | none =>
    rw [chunkOf_eq_messageChunk hid]
    simp only [dispatch, hid]
    cases hchunk : messageChunk msg with
    | none =>
      split_ifs <;> simp [handleNotification, hchunk, Reader.inFlight]
    | some chunk =>
      obtain ⟨x, text⟩ := chunk
      have hmethod : msg.method = "session/update" := by
        by_contra hne
        simp [messageChunk, hne] at hchunk
      have hnotification : msg.isNotification = true := by
        simp [Response.isNotification, hid, hmethod]
      simp only [hnotification, if_true, inFlight_handleNotification_of_chunk hchunk]
      by_cases hx : x = sessionID
      · simp [hx, Option.filter]
      · -- The channel of `c` is registered under its own session only.
        have hne : s.pending.load (.delta x) ≠ some c := by
          intro hload
          obtain ⟨e, he, hkind, -⟩ := h.entry x c (Table.mem_of_load hload)
          obtain rfl : inv = e := by simpa [hc] using he
          exact hx (Kind.prompt.inj (hkind.symm.trans kind))
        simp [hx, hne]

theorem load_delta_dispatch (s : Client) (msg : Response) (x : String) :
    (dispatch s msg).pending.load (.delta x) = s.pending.load (.delta x) := by
  have spec := dispatched s msg
  generalize ACP.dispatch s msg = u at spec ⊢
  cases spec with
  | reply => simp [Table.load_delete]
  | chunk | request | ignored => rfl

theorem dispatch_frame (s : Client) (msg : Response) :
    (dispatch s msg).invocations = s.invocations ∧ (dispatch s msg).delta = s.delta ∧
      (dispatch s msg).reply = s.reply := by
  have spec := dispatched s msg
  generalize ACP.dispatch s msg = u at spec ⊢
  cases spec <;> exact ⟨rfl, rfl, rfl⟩

theorem Collecting.readStep {a : ReadAct} (h : Collecting c sessionID past seen s inv)
    (streams : Streams s) (hs : readStep s a = some t) :
    Collecting c sessionID (past ++ [.read a]) (seen ++ offers c s (.read a)) t inv := by
  have hc := h.present
  cases readStep_move hs with
  | @dispatch msg hr =>
    obtain ⟨hinv, hdelta, -⟩ := dispatch_frame s msg
    have hflight : s.reader.inFlight c = [] := by rw [hr]; rfl
    refine ⟨by rw [hinv, hc], h.kind, h.registered, ?_, fun hf => ?_, fun hf => ?_⟩
    · rw [hdelta]
      simpa [offers] using h.conserved
    · rw [load_delta_dispatch, h.found hf]
    · have before := h.offered hf
      rw [hflight, List.append_nil] at before
      simp [inFlight_dispatch streams hc h.kind, h.found hf, offers, before, arrivals_snoc]
  | leave hr | scan hr | skip hr | stop hr | reply hr | fail hr | answer hr | visitID hr
  | visitDelta hr | sweepEnd hr =>
    exact h.frame rfl rfl hc rfl h.registered rfl (by rw [hr]; rfl) fun hf => ⟨hf, rfl⟩
  | @deliver ch text hr room =>
    by_cases hch : ch = c
    · subst hch
      have hoffers : offers ch s (.read .deliver) = [(text, true)] := by simp [offers, hr, room]
      rw [hoffers]
      refine ⟨hc, h.kind, h.registered, ?_, h.found, fun hf => ?_⟩
      · rw [kept_append, ← h.conserved]
        simp [kept]
      · simpa [hr, Reader.inFlight, arrivals_snoc, chunkOf] using h.offered hf
    · refine h.frame rfl ?_ hc rfl h.registered ?_ ?_ fun hf => ⟨hf, rfl⟩
      · simp [offers, hr, hch]
      · simp [Ne.symm hch]
      · simp [hr, Reader.inFlight, hch]
  | @drop ch text hr full =>
    by_cases hch : ch = c
    · subst hch
      have hoffers : offers ch s (.read .deliver) = [(text, false)] := by simp [offers, hr, full]
      rw [hoffers]
      refine ⟨hc, h.kind, h.registered, ?_, h.found, fun hf => ?_⟩
      · rw [kept_append, ← h.conserved]
        simp [kept]
      · simpa [hr, Reader.inFlight, arrivals_snoc, chunkOf] using h.offered hf
    · refine h.frame rfl ?_ hc rfl h.registered rfl ?_ fun hf => ⟨hf, rfl⟩
      · simp [offers, hr, hch]
      · simp [hr, Reader.inFlight, hch]

theorem Collecting.step {a : Act} (h : Collecting c sessionID past seen s inv) (corr : Inv s)
    (streams : Streams s) (only : OnlyPrompt c sessionID s a) (hs : step s a = some t) :
    ∃ inv', Collecting c sessionID (past ++ [a]) (seen ++ offers c s a) t inv' := by
  cases a with
  | start kind =>
    cases hs
    exact ⟨inv, h.frame rfl rfl (corr.older h.present _) rfl h.registered rfl rfl
      fun hf => ⟨hf, rfl⟩⟩
  | call d a =>
    obtain ⟨e, he, hs⟩ := Option.bind_eq_some_iff.mp hs
    by_cases hdc : d = c
    · subst hdc
      obtain rfl : inv = e := by simpa [h.present] using he
      exact h.own hs
    · exact ⟨inv, h.other corr hdc he only hs⟩
  | read a => exact ⟨inv, h.readStep streams hs⟩
  | close =>
    cases hs
    exact ⟨inv, h.frame rfl rfl h.present rfl h.registered rfl rfl fun hf => ⟨hf, rfl⟩⟩

end Collecting

/-! ## After the response -/

/-- What a prompt that takes this response makes of it, if it does not fail. -/
def PC.Settled (resp : Response) (texts : List String) : PC → Prop
  | .draining taken => taken = resp
  | .deleteID result | .deleteDelta result | .returned result =>
    (∃ err, result = .error err) ∨ result = promptResult resp texts
  | _ => True

theorem PC.Unanswered.settled {pc : PC} (h : pc.Unanswered) (resp : Response)
    (texts : List String) :
    pc.Settled resp texts := by
  cases pc with
  | draining taken => exact h.elim
  | deleteID | deleteDelta | returned => exact .inl h
  | store | storeDelta | send | wait => trivial

/-- The response was dispatched to prompt `c`, which had been offered these texts, and no more text
comes. -/
structure Answered (c : ℕ) (sessionID : String) (resp : Response) (texts : List String) (s : Client)
    (inv : Invocation) : Prop where
  present : s.invocations c = some inv
  kind : inv.kind = .prompt sessionID
  registered : inv.pc.registered
  conserved : inv.deltas ++ s.delta c = texts
  idle : s.reader.inFlight c = []
  /-- The reader will not come to its reply channel again. -/
  unreachable : ∀ n, ¬ s.reader.Finds s.pending n c
  aimed : ∀ msg, s.reader.target = some (c, msg) → msg = resp
  replied : ∀ msg, s.reply c = some msg → msg = resp
  settled : inv.pc.Settled resp texts

section Answered

variable {s t : Client} {c : ℕ} {sessionID : String} {resp : Response} {texts : List String}
  {inv inv' : Invocation}

/-- A step that does not send anything to the prompt. -/
theorem Answered.frame (h : Answered c sessionID resp texts s inv)
    (hc : t.invocations c = some inv')
    (hkind : inv'.kind = inv.kind) (hregistered : inv'.pc.registered)
    (hconserved : inv'.deltas ++ t.delta c = inv.deltas ++ s.delta c)
    (hidle : t.reader.inFlight c = []) (hfinds : ∀ n, t.reader.Finds t.pending n c →
      s.reader.Finds s.pending n c)
    (haim : ∀ msg, t.reader.target = some (c, msg) → s.reader.target = some (c, msg))
    (hreply : ∀ msg, t.reply c = some msg → s.reply c = some msg)
    (hsettled : inv'.pc.Settled resp texts) : Answered c sessionID resp texts t inv' :=
  ⟨hc, hkind.trans h.kind, hregistered, hconserved.trans h.conserved, hidle,
    fun n hn => h.unreachable n (hfinds n hn), fun msg hm => h.aimed msg (haim msg hm),
    fun msg hm => h.replied msg (hreply msg hm), hsettled⟩

/-- A step of the prompt. It takes its reply only, and returns what it has collected. -/
theorem Answered.own {a : CallAct} (h : Answered c sessionID resp texts s inv)
    (hs : callStep s c inv a = some t) : ∃ inv', Answered c sessionID resp texts t inv' := by
  have hregistered := h.registered
  have settled := h.settled
  cases callStep_move hs with
  | store hpc | storeDelta hpc => simp [hpc, PC.registered] at hregistered
  | sent hpc =>
    exact ⟨_, h.frame (setInvocation_self ..) rfl rfl rfl h.idle (fun _ => id) (fun _ => id)
      (fun _ => id) trivial⟩
  | fail hpc =>
    exact ⟨_, h.frame (setInvocation_self ..) rfl rfl rfl h.idle (fun _ => id) (fun _ => id)
      (fun _ => id) (.inl ⟨_, rfl⟩)⟩
  | takeDelta hpc hdelta =>
    refine ⟨_, h.frame (setInvocation_self ..) rfl hregistered ?_ h.idle (fun _ => id) (fun _ => id)
      (fun _ => id) settled⟩
    simp [Client.setInvocation, hdelta]
  | @takeReply taken pc hpc hreply next =>
    obtain rfl := h.replied taken hreply
    obtain rfl : pc = .draining taken := by
      rcases next with ⟨-, method, hkind⟩ | ⟨rfl, -⟩
      · simp [h.kind] at hkind
      · rfl
    refine ⟨_, h.frame (setInvocation_self ..) rfl rfl rfl h.idle (fun _ => id) (fun _ => id) ?_
      rfl⟩
    simp [Client.setInvocation]
  | drained hpc hdelta =>
    rw [hpc] at settled
    obtain rfl : _ = resp := settled
    have collected : inv.deltas = texts := by simpa [hdelta] using h.conserved
    exact ⟨_, h.frame (setInvocation_self ..) rfl rfl rfl h.idle (fun _ => id) (fun _ => id)
      (fun _ => id) (.inr (by rw [collected]))⟩
  | deleteID hpc next =>
    rw [hpc] at settled
    refine ⟨_, h.frame (setInvocation_self ..) rfl ?_ rfl ?_ (fun _ => Reader.Finds.of_delete) ?_
      (fun _ => id) ?_⟩
    · rcases next with rfl | rfl <;> rfl
    · simpa [Client.setInvocation, Client.delete] using h.idle
    · simp [Client.setInvocation, Client.delete]
    · rcases next with rfl | rfl <;> exact settled
  | deleteDelta hpc kind =>
    rw [hpc] at settled
    refine ⟨_, h.frame (setInvocation_self ..) rfl rfl rfl ?_ (fun _ => Reader.Finds.of_delete) ?_
      (fun _ => id) settled⟩
    · simpa [Client.setInvocation, Client.delete] using h.idle
    · simp [Client.setInvocation, Client.delete]

/-- A step of another invocation. It registers and takes out its own channels only. -/
theorem Answered.other {a : CallAct} {d : ℕ} {e : Invocation}
    (h : Answered c sessionID resp texts s inv) (hdc : d ≠ c) (hs : callStep s d e a = some t) :
    Answered c sessionID resp texts t inv := by
  cases callStep_move hs with
  | store hpc | storeDelta hpc =>
    refine h.frame (setInvocation_other hdc h.present) rfl h.registered rfl ?_ ?_ ?_ (fun _ => id)
      h.settled
    · simpa [Client.setInvocation, Client.store] using h.idle
    · intro n hn
      exact (Reader.Finds.of_store hn).resolve_right fun e => hdc e.2.symm
    · simp [Client.setInvocation, Client.store]
  | sent | fail | drained =>
    exact h.frame (setInvocation_other hdc h.present) rfl h.registered rfl h.idle (fun _ => id)
      (fun _ => id) (fun _ => id) h.settled
  | takeDelta =>
    refine h.frame (setInvocation_other hdc h.present) rfl h.registered ?_ h.idle (fun _ => id)
      (fun _ => id) (fun _ => id) h.settled
    simp [Client.setInvocation, hdc.symm]
  | takeReply =>
    refine h.frame (setInvocation_other hdc h.present) rfl h.registered rfl h.idle (fun _ => id)
      (fun _ => id) ?_ h.settled
    simp [Client.setInvocation, hdc.symm]
  | deleteID hpc | deleteDelta hpc =>
    refine h.frame (setInvocation_other hdc h.present) rfl h.registered rfl ?_
      (fun _ => Reader.Finds.of_delete) ?_ (fun _ => id) h.settled
    · simpa [Client.setInvocation, Client.delete] using h.idle
    · simp [Client.setInvocation, Client.delete]

/-- The reader sends to the reply channel it aims at. -/
theorem Answered.reply {ch : ℕ} {msg : Response} {r : Reader}
    (h : Answered c sessionID resp texts s inv) (aim : s.reader.target = some (ch, msg))
    (hidle : r.inFlight c = []) (hr : r.target = none)
    (hfinds : ∀ n, r.Finds s.pending n c → s.reader.Finds s.pending n c) :
    Answered c sessionID resp texts
      { s with reply := Function.update s.reply ch (some msg), reader := r } inv := by
  refine ⟨h.present, h.kind, h.registered, h.conserved, hidle,
    fun n hn => h.unreachable n (hfinds n hn), by simp [hr], fun m hm => ?_, h.settled⟩
  simp only [Function.update_apply] at hm
  split_ifs at hm with hch
  · subst hch
    cases hm
    exact h.aimed msg aim
  · exact h.replied m hm

/-- A step of the reader that brings no text for the session. -/
theorem Answered.readStep {a : ReadAct} (h : Answered c sessionID resp texts s inv)
    (streams : Streams s) (quiet : chunkOf sessionID (.read a) = none)
    (hs : readStep s a = some t) : Answered c sessionID resp texts t inv := by
  have hc := h.present
  cases readStep_move hs with
  | @dispatch msg hr =>
    obtain ⟨hinv, hdelta, hreply⟩ := dispatch_frame s msg
    have absent : ∀ n, (.id n, c) ∉ s.pending := by
      intro n hn
      exact h.unreachable n (by rw [hr]; exact hn)
    have gone : (∀ n, ¬ (dispatch s msg).reader.Finds (dispatch s msg).pending n c) ∧
        ∀ m, (dispatch s msg).reader.target ≠ some (c, m) := by
      have spec := dispatched s msg
      generalize ACP.dispatch s msg = u at spec ⊢
      cases spec with
      | @reply id ch hid found =>
        refine ⟨fun n hn => absent n (Table.mem_delete.mp hn).1, fun m hm => ?_⟩
        obtain ⟨rfl, -⟩ : ch = c ∧ msg = m := by simpa [Reader.target] using hm
        exact absent id (Table.mem_of_load found)
      | chunk | request | ignored => exact ⟨absent, by simp [Reader.target]⟩
    refine h.frame (by rw [hinv, hc]) rfl h.registered (by rw [hdelta]) ?_
      (fun n hn => absurd hn (gone.1 n)) (fun m hm => absurd hm (gone.2 m)) (by simp [hreply])
      h.settled
    simp [inFlight_dispatch streams hc h.kind, quiet]
  | scan hr | skip hr | stop hr | drop hr | answer hr =>
    exact h.frame hc rfl h.registered rfl rfl (by simp [hr, Reader.Finds]) (by simp [Reader.target])
      (fun _ => id) h.settled
  | leave | sweepEnd =>
    exact h.frame hc rfl h.registered rfl rfl (fun _ hn => hn.elim) (by simp [Reader.target])
      (fun _ => id) h.settled
  | @deliver ch text hr room =>
    have hch : c ≠ ch := by
      rintro rfl
      simpa [hr, Reader.inFlight] using h.idle
    refine h.frame hc rfl h.registered ?_ rfl (by simp [hr, Reader.Finds]) (by simp [Reader.target])
      (fun _ => id) h.settled
    simp [hch]
  | reply hr => exact h.reply (by rw [hr]; rfl) rfl rfl (by simp [hr, Reader.Finds])
  | fail hr => exact h.reply (by rw [hr]; rfl) rfl rfl (by simp [hr, Reader.Finds])
  | @visitID n ch it it' hr visit =>
    obtain ⟨ahead, rest⟩ := Iteration.visit_ahead visit
    refine h.frame hc rfl h.registered rfl rfl ?_ ?_ (fun _ => id) h.settled
    · intro m hm
      rw [hr]
      exact (rest _ _ hm).1
    · intro msg hmsg
      obtain ⟨rfl, -⟩ : ch = c ∧ connectionClosed = msg := by simpa [Reader.target] using hmsg
      exact absurd (by rw [hr]; exact ahead) (h.unreachable n)
  | visitDelta hr visit =>
    obtain ⟨-, rest⟩ := Iteration.visit_ahead visit
    refine h.frame hc rfl h.registered rfl rfl ?_ (by simp [Reader.target]) (fun _ => id) h.settled
    intro m hm
    rw [hr]
    exact (rest _ _ hm).1

theorem Answered.step {a : Act} (h : Answered c sessionID resp texts s inv) (corr : Inv s)
    (streams : Streams s) (quiet : chunkOf sessionID a = none) (hs : step s a = some t) :
    ∃ inv', Answered c sessionID resp texts t inv' := by
  cases a with
  | start kind =>
    cases hs
    exact ⟨inv, h.frame (corr.older h.present _) rfl h.registered rfl h.idle (fun _ => id)
      (fun _ => id) (fun _ => id) h.settled⟩
  | call d a =>
    obtain ⟨e, he, hs⟩ := Option.bind_eq_some_iff.mp hs
    by_cases hdc : d = c
    · subst hdc
      obtain rfl : inv = e := by simpa [h.present] using he
      exact h.own hs
    · exact ⟨inv, h.other hdc hs⟩
  | read a => exact ⟨inv, h.readStep streams quiet hs⟩
  | close =>
    cases hs
    exact ⟨inv, h.frame h.present rfl h.registered rfl h.idle (fun _ => id) (fun _ => id)
      (fun _ => id) h.settled⟩

end Answered

/-! ## From registration to return -/

/-- A prompt registers its delta channel, `during` brings updates while it is the only prompt of its
session, its response is dispatched to it, and `after` brings no more text for the session. -/
structure Exchange (c : ℕ) (sessionID : String) (resp : Response) (s₁ : Client)
    (during after : List Act) (s : Client) : Prop where
  registered : ∃ acts s₀ inv, run step .new acts = some s₀ ∧ s₀.invocations c = some inv ∧
    inv.kind = .prompt sessionID ∧ step s₀ (.call c .storeDelta) = some s₁
  only : Meets step (OnlyPrompt c sessionID) s₁ during
  dispatched : ∃ u v, run step s₁ during = some u ∧ step u (.read (.line (some resp))) = some v ∧
    v.reader.target = some (c, resp) ∧ run step v after = some s
  ended : arrivals sessionID after = []

section Exchange

variable {s s₁ : Client} {c : ℕ} {sessionID : String} {resp : Response} {during after : List Act}

theorem Collecting.start {s₀ : Client} {inv : Invocation} (corr : Streams s₀)
    (hc : s₀.invocations c = some inv) (kind : inv.kind = .prompt sessionID)
    (hs : ACP.step s₀ (.call c .storeDelta) = some s₁) :
    Collecting c sessionID [] [] s₁ { inv with pc := .send } := by
  simp only [ACP.step, hc, Option.bind_some] at hs
  cases callStep_move hs with
  | fail _ act | takeDelta _ _ act => simp at act
  | @storeDelta x hpc hkind =>
    obtain rfl : sessionID = x := Kind.prompt.inj (kind.symm.trans hkind)
    have unregistered : ¬ ∃ e, s₀.invocations c = some e ∧ e.pc.registered := by
      rintro ⟨e, he, hreg⟩
      obtain rfl : inv = e := by simpa [hc] using he
      simp [hpc, PC.registered] at hreg
    have hdeltas : inv.deltas = [] := by
      by_contra hne
      exact unregistered ⟨inv, hc, corr.collected c inv hc hne⟩
    have hdelta : s₀.delta c = [] := by
      by_contra hne
      exact unregistered (corr.delivered c hne)
    have hflight : s₀.reader.inFlight c = [] := by
      by_contra hne
      exact unregistered (corr.delivering c hne)
    refine ⟨by simp [Client.setInvocation], kind, rfl, ?_, fun _ => ?_, fun _ => ?_⟩
    · simp [Client.setInvocation, Client.store, hdeltas, hdelta, kept]
    · simp [Client.setInvocation, Client.store, Table.load_store]
    · simp [Client.setInvocation, Client.store, hflight, arrivals]

/-- When the response is dispatched to the prompt, everything before it has been offered. -/
theorem Answered.start {u v : Client} {seen : List (String × Bool)} {inv : Invocation}
    (corr : Inv u) (streams : Streams u) (h : Collecting c sessionID during seen u inv)
    (hs : ACP.readStep u (.line (some resp)) = some v)
    (hv : v.reader.target = some (c, resp)) :
    Answered c sessionID resp (kept seen) v inv ∧
      seen.map (·.1) = (arrivals sessionID during).filter (· ≠ "") := by
  cases readStep_move hs with
  | dispatch hr =>
    have spec := dispatched u resp
    generalize ACP.dispatch u resp = w at spec hv ⊢
    cases spec with
    | chunk | request | ignored => cases hv
    | @reply id ch hid found =>
      obtain rfl : ch = c := by simpa [Reader.target] using hv
      have finds : ∀ n, (.id n, ch) ∈ u.pending → u.reader.Finds u.pending n ch := by
        intro n hn
        rw [hr]
        exact hn
      have hmem := Table.mem_of_load found
      obtain ⟨e, he, rfl, -, unanswered⟩ := corr.found id ch (finds id hmem)
      obtain rfl : inv = e := by simpa [h.present] using he
      have hunreleased : inv.pc.released = false := by
        obtain ⟨e, he, -, hpc⟩ := streams.waiting inv.id ch hmem
        obtain rfl : inv = e := by simpa [h.present] using he
        exact hpc unanswered.unread
      have hunfinished : inv.pc.finished = false := by
        cases hpc : inv.pc <;> simp_all [PC.released, PC.finished]
      refine ⟨⟨h.present, h.kind, h.registered, h.conserved, rfl, ?_, ?_, ?_, ?_⟩, ?_⟩
      · intro n hn
        obtain ⟨hn, hne⟩ := Table.mem_delete.mp hn
        obtain ⟨e, he, rfl, -⟩ := corr.found n ch (finds n hn)
        obtain rfl : inv = e := by simpa [h.present] using he
        exact hne rfl
      · rintro msg ⟨⟩
        rfl
      · simp [unanswered.empty]
      · exact (streams.failed ch inv h.present unanswered.unread).settled _ _
      · have offered := h.offered hunfinished
        rw [hr] at offered
        simpa [Reader.inFlight] using offered

/-- What holds of an exchange in every state after the response. -/
theorem Exchange.answered (h : Exchange c sessionID resp s₁ during after s) :
    (∃ inv, Answered c sessionID resp (kept (observe step (offers c) s₁ during)) s inv) ∧
      (observe step (offers c) s₁ during).map (·.1) =
        (arrivals sessionID during).filter (· ≠ "") := by
  obtain ⟨⟨acts, s₀, inv, h₀, hc, kind, h₁⟩, only, ⟨u, v, hu, hv, hreader, hs⟩, ended⟩ := h
  have reached : Inv s₀ ∧ Streams s₀ := run_invariant (fun s => Inv s ∧ Streams s)
    (fun _ _ _ hs hstep => ⟨hs.1.step hstep, hs.2.step hs.1 hstep⟩) h₀ ⟨.new, .new⟩
  have started : Inv s₁ ∧ Streams s₁ := ⟨reached.1.step h₁, reached.2.step reached.1 h₁⟩
  obtain ⟨⟨corr, streams⟩, inv', collecting⟩ := Meets.observed (offers c)
    (fun past seen s => (Inv s ∧ Streams s) ∧ ∃ inv, Collecting c sessionID past seen s inv)
    (by
      rintro past seen s a t ⟨⟨corr, streams⟩, inv, hinv⟩ hok hstep
      exact ⟨⟨corr.step hstep, streams.step corr hstep⟩, hinv.step corr streams hok hstep⟩)
    only hu ⟨started, _, .start reached.2 hc kind h₁⟩
  obtain ⟨answered, offered⟩ := Answered.start corr streams collecting hv hreader
  refine ⟨?_, offered⟩
  have quiet : Meets step (fun _ a => chunkOf sessionID a = none) v after := by
    refine Meets.of_forall fun a ha => ?_
    exact List.filterMap_eq_nil_iff.mp ended a ha
  refine (Meets.invariant (fun s => (Inv s ∧ Streams s) ∧ ∃ inv, Answered c sessionID resp _ s inv)
    ?_ quiet hs ⟨⟨corr.step hv, streams.step corr hv⟩, inv', answered⟩).2
  rintro s a t ⟨⟨corr, streams⟩, inv, hinv⟩ hok hstep
  exact ⟨⟨corr.step hstep, streams.step corr hstep⟩, hinv.step corr streams hok hstep⟩

/-- The drain loop empties the channel, and the prompt returns. -/
theorem drain_returns (texts : List String) {s : Client} {inv : Invocation}
    (hc : s.invocations c = some inv) (kind : inv.kind = .prompt sessionID)
    (hpc : inv.pc = .draining resp) (hdelta : s.delta c = texts) :
    ∃ own t e, (∀ a ∈ own, ∃ b, a = Act.call c b) ∧ run step s own = some t ∧
      t.invocations c = some e ∧ e.pc = .returned (promptResult resp (inv.deltas ++ texts)) := by
  induction texts generalizing s inv with
  | nil =>
    refine ⟨[.call c .drain, .call c .deleteDelta], ?_⟩
    simp [run, step, callStep, hc, hpc, hdelta, kind, Client.setInvocation, Client.delete]
  | cons text rest ih =>
    let t := { s with delta := Function.update s.delta c rest }.setInvocation c
      { inv with deltas := inv.deltas ++ [text] }
    have hstep : step s (.call c .drain) = some t := by
      simp [step, callStep, hc, hpc, hdelta, t]
    have ht : t.invocations c = some { inv with deltas := inv.deltas ++ [text] } := by
      simp [t, Client.setInvocation]
    obtain ⟨own, u, e, hown, hrun, he, hreturned⟩ :=
      ih ht kind hpc (by simp [t, Client.setInvocation])
    refine ⟨.call c .drain :: own, u, e, ?_, run_cons.mpr ⟨t, hstep, hrun⟩, he,
      by simpa using hreturned⟩
    rintro a (_ | ⟨_, ha⟩)
    · exact ⟨.drain, rfl⟩
    · exact hown a ha

end Exchange

theorem join_filter_ne_empty (texts : List String) :
    String.join (texts.filter (· ≠ "")) = String.join texts := by
  induction texts with
  | nil => rfl
  | cons text texts ih =>
    by_cases htext : text = ""
    · simpa [htext] using ih
    · simpa [htext] using ih

/-- A successful response without content. -/
structure EmptySuccess (resp : Response) : Prop where
  ok : resp.error = none
  empty : resp.content = .ok ""

theorem EmptySuccess.result {resp : Response} (h : EmptySuccess resp) (texts : List String) :
    promptResult resp texts = .ok (.text (String.join texts)) := by
  simp [promptResult, h.ok, h.empty]

/-- What a prompt returns after a successful response without content. -/
structure Collects (c : ℕ) (sessionID : String) (s₁ : Client) (during : List Act) (s : Client) :
    Prop where
  /-- Every chunk before the response was offered once and in order; empty ones carry nothing. -/
  offered : (observe step (offers c) s₁ during).map (·.1) =
    (arrivals sessionID during).filter (· ≠ "")
  /-- A prompt that returns without error returns those that found room, -/
  returns : ∀ inv answer, s.invocations c = some inv → inv.pc = .returned (.ok answer) →
    answer = .text (String.join (kept (observe step (offers c) s₁ during)))
  /-- and one that waits with its reply in the channel returns them by steps of its own. -/
  finishes : ∀ inv, s.invocations c = some inv → inv.pc = .wait → s.reply c ≠ none →
    ∃ own t e, (∀ a ∈ own, ∃ b, a = Act.call c b) ∧ run step s own = some t ∧
      t.invocations c = some e ∧ e.pc = .returned
        (.ok (.text (String.join (kept (observe step (offers c) s₁ during)))))
  /-- These are all the chunks when none finds the channel full. -/
  complete : (∀ offer ∈ observe step (offers c) s₁ during, offer.2 = true) →
    String.join (kept (observe step (offers c) s₁ during)) = String.join (arrivals sessionID during)

theorem prompt_collects {c : ℕ} {sessionID : String} {resp : Response} {s₁ s : Client}
    {during after : List Act} (h : Exchange c sessionID resp s₁ during after s)
    (hresp : EmptySuccess resp) : Collects c sessionID s₁ during s := by
  obtain ⟨⟨inv, answered⟩, offered⟩ := h.answered
  refine ⟨offered, ?_, ?_, ?_⟩
  · intro e answer he hpc
    obtain rfl : inv = e := by simpa [answered.present] using he
    have settled := answered.settled
    rw [hpc] at settled
    rcases settled with ⟨err, herr⟩ | hresult
    · cases herr
    · rw [hresp.result] at hresult
      exact Except.ok.inj hresult
  · intro e he hpc hreply
    obtain rfl : inv = e := by simpa [answered.present] using he
    obtain ⟨taken, htaken⟩ := Option.ne_none_iff_exists'.mp hreply
    obtain rfl := answered.replied taken htaken
    let t := { s with reply := Function.update s.reply c none }.setInvocation c
      { inv with pc := .draining taken, consumed := inv.consumed ++ [taken] }
    have hstep : step s (.call c .receiveReply) = some t := by
      simp [step, callStep, he, hpc, htaken, answered.kind, t]
    have ht : t.invocations c =
        some { inv with pc := .draining taken, consumed := inv.consumed ++ [taken] } := by
      simp [t, Client.setInvocation]
    obtain ⟨own, u, e, hown, hrun, he, hreturned⟩ :=
      drain_returns (s.delta c) ht answered.kind rfl rfl
    refine ⟨.call c .receiveReply :: own, u, e, ?_, run_cons.mpr ⟨t, hstep, hrun⟩, he, ?_⟩
    · rintro a (_ | ⟨_, ha⟩)
      · exact ⟨.receiveReply, rfl⟩
      · exact hown a ha
    · rw [hreturned, answered.conserved, hresp.result]
  · intro room
    have all : kept (observe step (offers c) s₁ during) =
        (observe step (offers c) s₁ during).map (·.1) := by
      rw [kept, List.filter_eq_self.mpr room]
    rw [all, offered, join_filter_ne_empty]

/-! ## Two runs -/

/-- Run an exchange: where the prompt ends, provided that it is one. -/
def replayExchange (c : ℕ) (sessionID : String) (resp : Response) (before during after : List Act) :
    Option PC :=
  (run step .new before).bind fun s₀ =>
  (step s₀ (.call c .storeDelta)).bind fun s₁ =>
  (run step s₁ during).bind fun u =>
  (step u (.read (.line (some resp)))).bind fun v =>
  (run step v after).bind fun s =>
    if (s₀.invocations c).map (·.kind) = some (.prompt sessionID) ∧
      Meets step (OnlyPrompt c sessionID) s₁ during ∧ v.reader.target = some (c, resp) then
      (s.invocations c).map (·.pc)
    else none

theorem exchange_of_replay {c : ℕ} {sessionID : String} {resp : Response}
    {before during after : List Act} {pc : PC} (ended : arrivals sessionID after = [])
    (observed : replayExchange c sessionID resp before during after = some pc) :
    ∃ s₁ s inv, Exchange c sessionID resp s₁ during after s ∧ s.invocations c = some inv ∧
      inv.pc = pc := by
  simp only [replayExchange, Option.bind_eq_some_iff] at observed
  obtain ⟨s₀, h₀, s₁, h₁, u, hu, v, hv, s, hs, observed⟩ := observed
  split_ifs at observed with valid
  obtain ⟨hkind, only, target⟩ := valid
  obtain ⟨inv, hc, kind⟩ := Option.map_eq_some_iff.mp hkind
  obtain ⟨e, he, hpc⟩ := Option.map_eq_some_iff.mp observed
  exact ⟨s₁, s, e, ⟨⟨before, s₀, inv, h₀, hc, kind, h₁⟩, only, ⟨u, v, hu, hv, target, hs⟩, ended⟩,
    he, hpc⟩

/-- A line with an update of a session. -/
def update (sessionID kind text : String) : Act :=
  .read (.line (some { method := "session/update", update := some ⟨sessionID, kind, text⟩ }))

/-- Two chunks, one of them received before the next arrives, and between them a thought, a chunk of
another session and a request of the peer. -/
def twoChunks : List Act := [
  .call 0 (.send none),
  .read .poll, update "s" "agent_message_chunk" "Hel", .read .deliver, .call 0 .receiveDelta,
  .read .poll, update "s" "agent_thought_chunk" "hm",
  .read .poll, update "other" "agent_message_chunk" "no",
  .read .poll, .read (.line (some { id := some 7, method := "fs/read" })), .read (.answer true),
  .read .poll, update "s" "agent_message_chunk" "lo", .read .deliver,
  .read .poll]

/-- The reply is sent, taken, and the rest of the channel drained. -/
def takeReply (drains : ℕ) : List Act :=
  .read .send :: .call 0 .receiveReply :: (List.replicate drains (.call 0 .drain) ++
    [.call 0 .deleteDelta])

theorem prompt_collects_two :
    ∃ s₁ s inv, s.invocations 0 = some inv ∧ inv.pc = .returned (.ok (.text "Hello")) ∧
      Collects 0 "s" s₁ twoChunks s := by
  obtain ⟨s₁, s, inv, exchange, hinv, hpc⟩ := exchange_of_replay
    (show arrivals "s" (takeReply 2) = [] by decide)
    (show replayExchange 0 "s" { id := some 1 } [.start (.prompt "s"), .call 0 .store] twoChunks
      (takeReply 2) = some (.returned (.ok (.text "Hello"))) by decide +kernel)
  exact ⟨s₁, s, inv, hinv, hpc, prompt_collects exchange ⟨rfl, rfl⟩⟩

/-- Chunks that arrive while the prompt does not get to run. -/
def flood : ℕ → List Act
  | 0 => [.read .poll]
  | n + 1 => .read .poll :: update "s" "agent_message_chunk" "x" :: .read .deliver :: flood n

theorem prompt_drops_chunk :
    ∃ resp during after s₁ s inv text, Exchange 0 "s" resp s₁ during after s ∧ EmptySuccess resp ∧
      s.invocations 0 = some inv ∧ inv.pc = .returned (.ok (.text text)) ∧
      text ≠ String.join (arrivals "s" during) := by
  obtain ⟨s₁, s, inv, exchange, hinv, hpc⟩ := exchange_of_replay
    (show arrivals "s" (takeReply 257) = [] by decide +kernel)
    (show replayExchange 0 "s" { id := some 1 } [.start (.prompt "s"), .call 0 .store]
      (.call 0 (.send none) :: flood 257) (takeReply 257) =
        some (.returned (.ok (.text (String.join (List.replicate 256 "x"))))) by decide +kernel)
  refine ⟨_, _, _, s₁, s, inv, _, exchange, ⟨rfl, rfl⟩, hinv, hpc, ?_⟩
  decide +kernel

end Daedalus.ACP
