import Daedalus.ACP.Client

/-!
# Correlation of replies

The reader is the only one that sends to reply channels. A channel it can still find in `pending`
is registered under the ID of its own invocation and has never been sent to. Sending takes the
channel out of its reach, in `dispatch` because the entry is removed, and in the sweep because no
key is visited twice. So a reply channel gets at most one response, and the send never blocks.
IDs may wrap around; nothing depends on their being distinct.
-/
namespace Daedalus.ACP

open Foundation

namespace Reader

/-- The reply channel the reader is about to send to, and what. -/
def target : Reader → Option (ℕ × Response)
  | .sending ch msg => some (ch, msg)
  | .failing ch _ => some (ch, connectionClosed)
  | _ => none

/-- The reader can still find the channel under this ID. -/
def Finds (r : Reader) (pending : Table Key ℕ) (n : Int64) (ch : ℕ) : Prop :=
  match r with
  | .done => False
  | .sweeping it => it.Ahead (.id n) ch
  | .failing _ it => it.Ahead (.id n) ch
  | _ => (.id n, ch) ∈ pending

variable {r : Reader} {pending : Table Key ℕ} {k : Key} {n : Int64} {c d : ℕ}

@[simp] theorem target_noteStore : (r.noteStore k c).target = r.target := by
  cases r <;> rfl

@[simp] theorem target_noteDelete : (r.noteDelete k).target = r.target := by
  cases r <;> rfl

theorem Finds.of_store (h : (r.noteStore k c).Finds (pending.store k c) n d) :
    r.Finds pending n d ∨ (k = .id n ∧ d = c) := by
  cases r with
  | done => exact h.elim
  | sweeping it =>
    rcases Iteration.Ahead.of_noteStore h with ⟨e, e'⟩ | hold
    · exact .inr ⟨e.symm, e'⟩
    · exact .inl hold
  | failing ch it =>
    rcases Iteration.Ahead.of_noteStore h with ⟨e, e'⟩ | hold
    · exact .inr ⟨e.symm, e'⟩
    · exact .inl hold
  | head | scanning | sending | delivering | answering =>
    rcases Table.mem_store.mp h with ⟨e, e'⟩ | ⟨hold, -⟩
    · exact .inr ⟨e.symm, e'⟩
    · exact .inl hold

theorem Finds.of_delete (h : (r.noteDelete k).Finds (pending.delete k) n d) :
    r.Finds pending n d := by
  cases r with
  | done | sweeping | failing => exact h
  | head | scanning | sending | delivering | answering => exact (Table.mem_delete.mp h).1

end Reader

/-- The response carries the ID of the invocation, or is the connection-closed error. -/
def Own (inv : Invocation) (msg : Response) : Prop := msg.id = some inv.id ∨ msg = connectionClosed

/-- Nothing was sent to the invocation's reply channel, and the reader is not about to. -/
structure Unanswered (s : Client) (c : ℕ) (inv : Invocation) : Prop where
  empty : s.reply c = none
  unread : inv.consumed = []
  untargeted : ∀ msg, s.reader.target ≠ some (c, msg)

/-- The invariant of the client. -/
structure Inv (s : Client) : Prop where
  /-- A channel the reader can find is unanswered and registered under its own ID. -/
  found : ∀ n c, s.reader.Finds s.pending n c →
    ∃ inv, s.invocations c = some inv ∧ inv.id = n ∧ inv.pc ≠ .store ∧ Unanswered s c inv
  /-- So is one that is not registered yet. -/
  unstored : ∀ c inv, s.invocations c = some inv → inv.pc = .store → Unanswered s c inv
  /-- The channel the reader is about to send to is empty and gets its own response. -/
  targeted : ∀ c msg, s.reader.target = some (c, msg) →
    ∃ inv, s.invocations c = some inv ∧ inv.pc ≠ .store ∧ s.reply c = none ∧ inv.consumed = [] ∧
      Own inv msg
  replied : ∀ c msg, s.reply c = some msg →
    ∃ inv, s.invocations c = some inv ∧ inv.consumed = [] ∧ Own inv msg
  consumed : ∀ c inv, s.invocations c = some inv →
    inv.consumed.length ≤ 1 ∧ ∀ msg ∈ inv.consumed, Own inv msg
  fresh : ∀ c, s.next ≤ c → s.invocations c = none

theorem Inv.new : Inv .new := by
  constructor <;> simp [Client.new, Reader.Finds, Reader.target]

section Preservation

variable {s t : Client} {c : ℕ} {inv inv' : Invocation}

/-- A step of an invocation that leaves its replies alone. It may register its channel. -/
theorem Inv.move (h : Inv s) (hc : s.invocations c = some inv)
    (hinv : t.invocations = Function.update s.invocations c (some inv'))
    (kept : inv'.id = inv.id ∧ inv'.consumed = inv.consumed) (past : inv'.pc ≠ .store)
    (hreply : t.reply = s.reply) (hnext : t.next = s.next)
    (htarget : t.reader.target = s.reader.target)
    (hfinds : ∀ n d, t.reader.Finds t.pending n d →
      s.reader.Finds s.pending n d ∨ (n = inv.id ∧ d = c ∧ inv.pc = .store)) : Inv t := by
  obtain ⟨found, unstored, targeted, replied, consumed, fresh⟩ := h
  have unanswered : ∀ d e, Unanswered s d e → ∀ e', e'.consumed = e.consumed →
      Unanswered t d e' := by
    rintro d e ⟨empty, unread, untargeted⟩ e' he
    exact ⟨by rw [hreply, empty], by rw [he, unread], by rwa [htarget]⟩
  constructor
  · intro n d hd
    rw [hinv]
    rcases hfinds n d hd with hold | ⟨rfl, rfl, hstore⟩
    · obtain ⟨e, he, hn, hpc, hu⟩ := found n d hold
      by_cases hdc : d = c
      · subst hdc
        obtain rfl : inv = e := by simpa [hc] using he
        exact ⟨inv', by simp, kept.1.trans hn, past, unanswered d inv hu inv' kept.2⟩
      · exact ⟨e, by simp [hdc, he], hn, hpc, unanswered d e hu e rfl⟩
    · exact ⟨inv', by simp, kept.1, past, unanswered d inv (unstored d inv hc hstore) inv' kept.2⟩
  · intro d e he hstore
    rw [hinv, Function.update_apply] at he
    split_ifs at he with hdc
    · cases he
      exact absurd hstore past
    · exact unanswered d e (unstored d e he hstore) e rfl
  · rw [hinv, hreply, htarget]
    grind [Own]
  · rw [hinv, hreply]
    grind [Own]
  · rw [hinv]
    grind [Own]
  · rw [hinv, hnext]
    grind

/-- A step of the reader up to a send: it may pick a channel it finds, and finds no channel under
that ID any more. -/
theorem Inv.pick (h : Inv s) (hinv : t.invocations = s.invocations) (hreply : t.reply = s.reply)
    (hnext : t.next = s.next)
    (hfinds : ∀ n d, t.reader.Finds t.pending n d → s.reader.Finds s.pending n d)
    (htarget : ∀ d msg, t.reader.target = some (d, msg) →
      ∃ n, s.reader.Finds s.pending n d ∧ (msg.id = some n ∨ msg = connectionClosed) ∧
        ∀ m e, t.reader.Finds t.pending m e → m ≠ n) : Inv t := by
  obtain ⟨found, unstored, targeted, replied, consumed, fresh⟩ := h
  have aimed : ∀ d msg, t.reader.target = some (d, msg) → ∃ e, s.invocations d = some e ∧
      e.pc ≠ .store ∧ s.reply d = none ∧ e.consumed = [] ∧ Own e msg ∧
      ∀ m x, t.reader.Finds t.pending m x → m ≠ e.id := by
    intro d msg hd
    obtain ⟨n, hn, own, gone⟩ := htarget d msg hd
    obtain ⟨e, he, rfl, hpc, hu⟩ := found n d hn
    exact ⟨e, he, hpc, hu.empty, hu.unread, own, gone⟩
  constructor
  · intro n d hd
    obtain ⟨e, he, hn, hpc, hu⟩ := found n d (hfinds n d hd)
    refine ⟨e, by rw [hinv, he], hn, hpc, by rw [hreply, hu.empty], hu.unread, ?_⟩
    intro msg hmsg
    obtain ⟨e', he', -, -, -, -, gone⟩ := aimed d msg hmsg
    obtain rfl : e = e' := by simpa [he] using he'
    exact gone n d hd hn.symm
  · intro d e he hstore
    rw [hinv] at he
    have hu := unstored d e he hstore
    refine ⟨by rw [hreply, hu.empty], hu.unread, ?_⟩
    intro msg hmsg
    obtain ⟨e', he', hpc, -⟩ := aimed d msg hmsg
    obtain rfl : e = e' := by simpa [he] using he'
    exact hpc hstore
  · intro d msg hmsg
    obtain ⟨e, he, hpc, hempty, hunread, own, -⟩ := aimed d msg hmsg
    exact ⟨e, by rw [hinv, he], hpc, by rw [hreply, hempty], hunread, own⟩
  · rwa [hinv, hreply]
  · rwa [hinv]
  · rwa [hinv, hnext]

/-- The reader sends to the channel it aims at. -/
theorem Inv.reply (h : Inv s) {msg : Response} {r : Reader}
    (aim : s.reader.target = some (c, msg)) (hr : r.target = none)
    (hfinds : ∀ n d, r.Finds s.pending n d → s.reader.Finds s.pending n d) :
    Inv { s with reply := Function.update s.reply c (some msg), reader := r } := by
  obtain ⟨found, unstored, targeted, replied, consumed, fresh⟩ := h
  obtain ⟨inv, hc, hpc, hempty, hunread, own⟩ := targeted c msg aim
  constructor
  · intro n d hd
    obtain ⟨e, he, hn, hpc', hu⟩ := found n d (hfinds n d hd)
    have hdc : d ≠ c := fun e => hu.untargeted msg (e ▸ aim)
    exact ⟨e, he, hn, hpc', by simp [hdc, hu.empty], hu.unread, by simp [hr]⟩
  · intro d e he hstore
    have hu := unstored d e he hstore
    have hdc : d ≠ c := fun e => hu.untargeted msg (e ▸ aim)
    exact ⟨by simp [hdc, hu.empty], hu.unread, by simp [hr]⟩
  · intro d m hm
    simp [hr] at hm
  · intro d m hm
    simp only [Function.update_apply] at hm
    split_ifs at hm with hdc
    · cases hm
      exact ⟨inv, hdc ▸ hc, hunread, own⟩
    · exact replied d m hm
  · exact consumed
  · exact fresh

/-- An invocation takes the response from its reply channel. -/
theorem Inv.receive (h : Inv s) {resp : Response} {pc : PC} (hc : s.invocations c = some inv)
    (hresp : s.reply c = some resp) (past : pc ≠ .store) :
    Inv ({ s with reply := Function.update s.reply c none }.setInvocation c
      { inv with pc, consumed := inv.consumed ++ [resp] }) := by
  obtain ⟨found, unstored, targeted, replied, consumed, fresh⟩ := h
  obtain ⟨inv₀, hc₀, hunread, own⟩ := replied c resp hresp
  obtain rfl : inv = inv₀ := by simpa [hc] using hc₀
  constructor <;> simp only [Client.setInvocation]
  · intro n d hd
    obtain ⟨e, he, hn, hpc, hu⟩ := found n d hd
    have hdc : d ≠ c := by
      rintro rfl
      simp [hu.empty] at hresp
    exact ⟨e, by simp [hdc, he], hn, hpc, by simp [hdc, hu.empty], hu.unread, hu.untargeted⟩
  · intro d e he hstore
    rw [Function.update_apply] at he
    split_ifs at he with hdc
    · cases he
      exact absurd hstore past
    · have hu := unstored d e he hstore
      exact ⟨by simp [hdc, hu.empty], hu.unread, hu.untargeted⟩
  · intro d msg hd
    obtain ⟨e, he, hpc, hempty, hnone, own'⟩ := targeted d msg hd
    have hdc : d ≠ c := by
      rintro rfl
      simp [hempty] at hresp
    exact ⟨e, by simp [hdc, he], hpc, by simp [hdc, hempty], hnone, own'⟩
  · intro d msg hd
    rw [Function.update_apply] at hd
    split_ifs at hd with hdc
    obtain ⟨e, he, hnone, own'⟩ := replied d msg hd
    exact ⟨e, by simp [hdc, he], hnone, own'⟩
  · intro d e he
    rw [Function.update_apply] at he
    split_ifs at he with hdc
    · cases he
      simpa [hunread, Own] using own
    · exact consumed d e he
  · intro d hd
    have hdc : d ≠ c := by
      rintro rfl
      simp [fresh d hd] at hc
    simp [hdc, fresh d hd]

theorem Inv.lt_next (h : Inv s) (hc : s.invocations c = some inv) : c < s.next := by
  by_contra hge
  simp [h.fresh c (by omega)] at hc

/-- What is known of an older invocation stays true when a new one starts. -/
theorem Inv.older (h : Inv s) (hc : s.invocations c = some inv) (new : Invocation) :
    Function.update s.invocations s.next (some new) c = some inv := by
  have hne : c ≠ s.next := (h.lt_next hc).ne
  simp [hne, hc]

theorem Inv.start (h : Inv s) (kind : Kind) (id : Int64) :
    Inv ({ s with nextID := id, next := s.next + 1 }.setInvocation s.next
      { kind, id, pc := .store }) := by
  have older : ∀ d e, s.invocations d = some e →
      Function.update s.invocations s.next (some { kind, id, pc := .store }) d = some e :=
    fun d e he => h.older he _
  obtain ⟨found, unstored, targeted, replied, consumed, fresh⟩ := h
  have new : s.invocations s.next = none := fresh s.next le_rfl
  have hreply : s.reply s.next = none := by
    by_contra hne
    obtain ⟨msg, hmsg⟩ := Option.ne_none_iff_exists'.mp hne
    obtain ⟨inv, hinv, -⟩ := replied s.next msg hmsg
    simp [new] at hinv
  have htarget : ∀ msg, s.reader.target ≠ some (s.next, msg) := by
    intro msg hmsg
    obtain ⟨inv, hinv, -⟩ := targeted s.next msg hmsg
    simp [new] at hinv
  constructor <;> simp only [Client.setInvocation]
  · intro n d hd
    obtain ⟨e, he, hn, hpc, hu⟩ := found n d hd
    exact ⟨e, older d e he, hn, hpc, hu.empty, hu.unread, hu.untargeted⟩
  · intro d e he hstore
    rw [Function.update_apply] at he
    split_ifs at he with hd
    · cases he
      subst hd
      exact ⟨hreply, rfl, htarget⟩
    · have hu := unstored d e he hstore
      exact ⟨hu.empty, hu.unread, hu.untargeted⟩
  · intro d msg hd
    obtain ⟨e, he, rest⟩ := targeted d msg hd
    exact ⟨e, older d e he, rest⟩
  · intro d msg hd
    obtain ⟨e, he, rest⟩ := replied d msg hd
    exact ⟨e, older d e he, rest⟩
  · intro d e he
    rw [Function.update_apply] at he
    split_ifs at he with hd
    · cases he
      simp
    · exact consumed d e he
  · intro d hd
    have hne : d ≠ s.next := by omega
    simp [hne, fresh d (by omega)]

theorem Inv.callStep {a : CallAct} (h : Inv s) (hc : s.invocations c = some inv)
    (hs : callStep s c inv a = some t) : Inv t := by
  cases callStep_move hs with
  | store hpc next =>
    refine h.move hc rfl ⟨rfl, rfl⟩ ?_ rfl rfl (by simp [Client.setInvocation, Client.store]) ?_
    · rcases next with rfl | rfl <;> simp
    · intro n d hd
      rcases Reader.Finds.of_store hd with hold | ⟨e, rfl⟩
      · exact .inl hold
      · exact .inr ⟨(Key.id.inj e).symm, rfl, hpc⟩
  | storeDelta hpc kind =>
    refine h.move hc rfl ⟨rfl, rfl⟩ (by simp) rfl rfl
      (by simp [Client.setInvocation, Client.store]) ?_
    intro n d hd
    rcases Reader.Finds.of_store hd with hold | ⟨e, _⟩
    · exact .inl hold
    · cases e
  | sent hpc | fail hpc | drained hpc hdelta =>
    exact h.move hc rfl ⟨rfl, rfl⟩ (by simp) rfl rfl rfl fun _ _ hd => .inl hd
  | takeDelta hpc hdelta =>
    refine h.move hc rfl ⟨rfl, rfl⟩ ?_ rfl rfl rfl fun _ _ hd => .inl hd
    rcases hpc with hpc | ⟨_, hpc⟩ <;> simp [hpc]
  | takeReply hpc hreply next =>
    refine h.receive hc hreply ?_
    rcases next with ⟨rfl, -⟩ | ⟨rfl, -⟩ <;> simp
  | deleteID hpc next =>
    refine h.move hc rfl ⟨rfl, rfl⟩ ?_ rfl rfl (by simp [Client.setInvocation, Client.delete])
      fun _ _ hd => .inl (Reader.Finds.of_delete hd)
    rcases next with rfl | rfl <;> simp
  | deleteDelta hpc kind =>
    exact h.move hc rfl ⟨rfl, rfl⟩ (by simp) rfl rfl (by simp [Client.setInvocation, Client.delete])
      fun _ _ hd => .inl (Reader.Finds.of_delete hd)

/-- A step of the reader that leads to no send. -/
theorem Inv.quiet (h : Inv s) (hinv : t.invocations = s.invocations) (hreply : t.reply = s.reply)
    (hnext : t.next = s.next) (htarget : t.reader.target = none)
    (hfinds : ∀ n d, t.reader.Finds t.pending n d → s.reader.Finds s.pending n d) : Inv t :=
  h.pick hinv hreply hnext hfinds fun d msg hd => by simp [htarget] at hd

theorem Inv.dispatch (h : Inv s) (hr : s.reader = .scanning) (msg : Response) :
    Inv (dispatch s msg) := by
  have finds : ∀ n d, (.id n, d) ∈ s.pending → s.reader.Finds s.pending n d := by
    intro n d hd
    rw [hr]
    exact hd
  have spec := dispatched s msg
  generalize ACP.dispatch s msg = u at spec ⊢
  cases spec with
  | @reply id ch hid found =>
    refine h.pick rfl rfl rfl ?_ ?_
    · intro n d hd
      exact finds n d (Table.mem_delete.mp hd).1
    · rintro d m ⟨⟩
      refine ⟨id, finds id ch (Table.mem_of_load found), .inl hid, ?_⟩
      rintro m e he rfl
      exact (Table.mem_delete.mp he).2 rfl
  | chunk | request | ignored => exact h.quiet rfl rfl rfl rfl finds

theorem Inv.readStep {a : ReadAct} (h : Inv s) (hs : readStep s a = some t) : Inv t := by
  cases readStep_move hs with
  | dispatch hr => exact h.dispatch hr _
  | scan hr | skip hr | stop hr | deliver hr | drop hr | answer hr =>
    exact h.quiet rfl rfl rfl rfl (by simp [hr, Reader.Finds])
  | leave | sweepEnd => exact h.quiet rfl rfl rfl rfl fun _ _ hd => hd.elim
  | reply hr | fail hr => exact h.reply (by rw [hr]; rfl) rfl (by simp [hr, Reader.Finds])
  | visitID hr visit =>
    obtain ⟨ahead, rest⟩ := Iteration.visit_ahead visit
    refine h.pick rfl rfl rfl ?_ ?_
    · intro m d hd
      rw [hr]
      exact (rest _ _ hd).1
    · rintro d m ⟨⟩
      refine ⟨_, by rw [hr]; exact ahead, .inr rfl, ?_⟩
      rintro m e he rfl
      exact (rest _ _ he).2 rfl
  | visitDelta hr visit =>
    obtain ⟨-, rest⟩ := Iteration.visit_ahead visit
    refine h.quiet rfl rfl rfl rfl fun m d hd => ?_
    rw [hr]
    exact (rest _ _ hd).1

theorem Inv.step {a : Act} (h : Inv s) (hs : step s a = some t) : Inv t := by
  cases a with
  | start kind =>
    cases hs
    exact h.start kind _
  | call c a =>
    obtain ⟨inv, hc, hs⟩ := Option.bind_eq_some_iff.mp hs
    exact h.callStep hc hs
  | read a => exact h.readStep hs
  | close =>
    cases hs
    refine ⟨fun n c hc => ?_, fun c inv hc hstore => ?_, h.targeted, h.replied, h.consumed, h.fresh⟩
    · obtain ⟨inv, hinv, hn, hpc, hu⟩ := h.found n c hc
      exact ⟨inv, hinv, hn, hpc, hu.empty, hu.unread, hu.untargeted⟩
    · have hu := h.unstored c inv hc hstore
      exact ⟨hu.empty, hu.unread, hu.untargeted⟩

end Preservation

/-! ## Every run -/

/-- What holds of replies and of the reader. -/
structure Correlated (s : Client) : Prop where
  /-- An invocation consumes at most one response, -/
  once : ∀ c inv, s.invocations c = some inv → inv.consumed.length ≤ 1
  /-- which carries the ID the invocation allocated, or is the connection-closed error. -/
  own : ∀ c inv, s.invocations c = some inv → ∀ msg ∈ inv.consumed, Own inv msg
  /-- A send of the reader to a reply channel can always be made at once. -/
  unblocked : ∀ c msg, s.reader.target = some (c, msg) → ∃ t, step s (.read .send) = some t

/-- For every interleaving of the invocations with the reader, and whatever the peer sends,
replies are correlated and the reader does not block on a reply channel. -/
theorem replies_correlated {acts : List Act} {s : Client} (h : run step .new acts = some s) :
    Correlated s := by
  have inv : Inv s := run_invariant Inv (fun _ _ _ hs hstep => hs.step hstep) h .new
  refine ⟨fun c e he => (inv.consumed c e he).1, fun c e he => (inv.consumed c e he).2, ?_⟩
  intro c msg hc
  obtain ⟨-, -, -, hempty, -⟩ := inv.targeted c msg hc
  cases hr : s.reader with
  | sending ch msg' =>
    obtain ⟨rfl, rfl⟩ : ch = c ∧ msg' = msg := by simpa [hr, Reader.target] using hc
    exact ⟨_, by simp only [step, readStep, hr, hempty]; rfl⟩
  | failing ch it =>
    obtain ⟨rfl, -⟩ : ch = c ∧ connectionClosed = msg := by simpa [hr, Reader.target] using hc
    exact ⟨_, by simp only [step, readStep, hr, hempty]; rfl⟩
  | head | scanning | delivering | answering | sweeping | done => simp [hr, Reader.target] at hc

/-- A call and a prompt at once. The reply to the prompt comes first, comes again, and then the
stream ends. -/
def crossed : List Act := [
  .start (.call "session/new"), .start (.prompt "s"), .call 0 .store, .call 1 .store,
  .call 1 .storeDelta, .call 1 (.send none), .call 0 (.send none),
  .read .poll, .read (.line (some { id := some 2 })), .read .send,
  .read .poll, .read (.line (some { id := some 2 })),
  .call 1 .receiveReply,
  .read .poll, .read .stop, .read (.visit (.id 1) 0), .read .send,
  .call 0 .receiveReply]

theorem replies_correlated_crossed :
    ∃ s, run step .new crossed = some s ∧
      (s.invocations 0).map (·.consumed) = some [connectionClosed] ∧
      (s.invocations 1).map (·.consumed) = some [{ id := some 2 }] ∧ Correlated s := by
  have observed : (run step .new crossed).map (fun s =>
      ((s.invocations 0).map (·.consumed), (s.invocations 1).map (·.consumed))) =
      some (some [connectionClosed], some [{ id := some 2 }]) := by decide
  obtain ⟨s, hs, e⟩ := Option.map_eq_some_iff.mp observed
  obtain ⟨first, second⟩ := Prod.mk.inj e
  exact ⟨s, hs, first, second, replies_correlated hs⟩

end Daedalus.ACP
