import Daedalus.ACP.Correlation

/-!
# Registered channels

Which channels are registered in `pending`, and whom the reader delivers to. A delta channel is
registered under the session of its prompt from before the request is written until the prompt
cleans up, and texts are delivered to registered prompts only. A reply channel stays registered
until its invocation has taken a response or gives up.
-/
namespace Daedalus.ACP

open Foundation

/-- The text that the reader is about to send to the delta channel of `c`. -/
def Reader.inFlight (r : Reader) (c : ℕ) : List String :=
  match r with
  | .delivering ch text => if ch = c then [text] else []
  | _ => []

@[simp] theorem Reader.inFlight_noteStore (r : Reader) (k : Key) (d c : ℕ) :
    (r.noteStore k d).inFlight c = r.inFlight c := by
  cases r <;> rfl

@[simp] theorem Reader.inFlight_noteDelete (r : Reader) (k : Key) (c : ℕ) :
    (r.noteDelete k).inFlight c = r.inFlight c := by
  cases r <;> rfl

namespace PC

/-- Past the registration of the channels. -/
def registered : PC → Bool
  | .store | .storeDelta => false
  | _ => true

def finished : PC → Bool
  | .returned _ => true
  | _ => false

/-- Where an invocation can be that has taken no response. -/
def Unanswered : PC → Prop
  | .draining _ => False
  | .deleteID result | .deleteDelta result | .returned result => ∃ err, result = .error err
  | _ => True

/-- Where the request ID is no longer needed. -/
def released : PC → Bool
  | .deleteDelta _ | .returned _ => true
  | _ => false

end PC

/-! ## Registration -/

/-- Who is registered in `pending`, and whom the reader delivers to. -/
structure Streams (s : Client) : Prop where
  /-- A delta channel is registered under the session of its prompt. -/
  entry : ∀ x d, (.delta x, d) ∈ s.pending →
    ∃ inv, s.invocations d = some inv ∧ inv.kind = .prompt x ∧ inv.pc.registered
  /-- Texts are delivered to registered prompts only. -/
  delivering : ∀ d, s.reader.inFlight d ≠ [] →
    ∃ inv, s.invocations d = some inv ∧ inv.pc.registered
  delivered : ∀ d, s.delta d ≠ [] → ∃ inv, s.invocations d = some inv ∧ inv.pc.registered
  collected : ∀ d inv, s.invocations d = some inv → inv.deltas ≠ [] → inv.pc.registered
  /-- A reply channel is registered under the ID of its invocation, which has taken a response or
  still needs the ID. -/
  waiting : ∀ n d, (.id n, d) ∈ s.pending → ∃ inv, s.invocations d = some inv ∧ inv.id = n ∧
    (inv.consumed = [] → inv.pc.released = false)
  /-- Without a response an invocation can only fail. -/
  failed : ∀ d inv, s.invocations d = some inv → inv.consumed = [] → inv.pc.Unanswered

theorem Streams.new : Streams .new := by
  constructor <;> simp [Client.new, Reader.inFlight]

section Preservation

variable {s t : Client} {c : ℕ} {inv inv' : Invocation}

/-- A step of an invocation. It may register its own channels. -/
theorem Streams.move (h : Streams s) (hc : s.invocations c = some inv)
    (hinv : t.invocations = Function.update s.invocations c (some inv'))
    (same : inv'.kind = inv.kind ∧ inv'.id = inv.id)
    (onward : inv.pc.registered → inv'.pc.registered)
    (hreader : ∀ d, t.reader.inFlight d = s.reader.inFlight d)
    (hdelta : ∀ d, t.delta d ≠ [] → s.delta d ≠ [])
    (hentry : ∀ x d, (.delta x, d) ∈ t.pending → (.delta x, d) ∈ s.pending ∨
      (d = c ∧ inv.kind = .prompt x ∧ inv'.pc.registered))
    (hcollected : inv'.deltas ≠ [] → inv'.pc.registered)
    (hwaiting : ∀ n d, (.id n, d) ∈ t.pending → ((.id n, d) ∈ s.pending ∧ (d = c →
      inv'.consumed = [] → inv.consumed = [] ∧
        (inv.pc.released = false → inv'.pc.released = false))) ∨
      (d = c ∧ n = inv.id ∧ inv'.pc.released = false))
    (hfailed : inv'.consumed = [] → inv'.pc.Unanswered) : Streams t := by
  obtain ⟨entry, delivering, delivered, collected, waiting, failed⟩ := h
  have known : ∀ d, (∃ e, s.invocations d = some e ∧ e.pc.registered) →
      ∃ e, t.invocations d = some e ∧ e.pc.registered := by
    rintro d ⟨e, he, hreg⟩
    by_cases hdc : d = c
    · subst hdc
      obtain rfl : inv = e := by simpa [hc] using he
      exact ⟨inv', by simp [hinv], onward hreg⟩
    · exact ⟨e, by simp [hinv, hdc, he], hreg⟩
  constructor
  · intro x d hd
    rcases hentry x d hd with hold | ⟨rfl, hkind, hreg⟩
    · obtain ⟨e, he, hkind, hreg⟩ := entry x d hold
      by_cases hdc : d = c
      · subst hdc
        obtain rfl : inv = e := by simpa [hc] using he
        exact ⟨inv', by simp [hinv], same.1.trans hkind, onward hreg⟩
      · exact ⟨e, by simp [hinv, hdc, he], hkind, hreg⟩
    · exact ⟨inv', by simp [hinv], same.1.trans hkind, hreg⟩
  · intro d hd
    rw [hreader] at hd
    exact known d (delivering d hd)
  · intro d hd
    exact known d (delivered d (hdelta d hd))
  · intro d e he hne
    rw [hinv, Function.update_apply] at he
    split_ifs at he with hdc
    · cases he
      exact hcollected hne
    · exact collected d e he hne
  · intro n d hd
    rcases hwaiting n d hd with ⟨hold, hself⟩ | ⟨rfl, rfl, hpc⟩
    · obtain ⟨e, he, hn, hpc⟩ := waiting n d hold
      by_cases hdc : d = c
      · subst hdc
        obtain rfl : inv = e := by simpa [hc] using he
        refine ⟨inv', by simp [hinv], same.2.trans hn, fun hnone => ?_⟩
        obtain ⟨hnone, hkeep⟩ := hself rfl hnone
        exact hkeep (hpc hnone)
      · exact ⟨e, by simp [hinv, hdc, he], hn, hpc⟩
    · exact ⟨inv', by simp [hinv], same.2, fun _ => hpc⟩
  · intro d e he hnone
    rw [hinv, Function.update_apply] at he
    split_ifs at he with hdc
    · cases he
      exact hfailed hnone
    · exact failed d e he hnone

/-- A step of the reader. It may take entries out of the map, and deliver to who it finds there. -/
theorem Streams.read (h : Streams s) (hinv : t.invocations = s.invocations)
    (hpending : ∀ k d, (k, d) ∈ t.pending → (k, d) ∈ s.pending)
    (hreader : ∀ d, t.reader.inFlight d ≠ [] → ∃ x, (.delta x, d) ∈ s.pending)
    (hdelta : ∀ d, t.delta d ≠ [] → s.delta d ≠ [] ∨ s.reader.inFlight d ≠ []) : Streams t := by
  obtain ⟨entry, delivering, delivered, collected, waiting, failed⟩ := h
  constructor
  · intro x d hd
    rw [hinv]
    exact entry x d (hpending _ d hd)
  · intro d hd
    obtain ⟨x, hx⟩ := hreader d hd
    obtain ⟨e, he, -, hreg⟩ := entry x d hx
    exact ⟨e, by rw [hinv, he], hreg⟩
  · intro d hd
    rw [hinv]
    rcases hdelta d hd with hold | hnew
    · exact delivered d hold
    · exact delivering d hnew
  · rwa [hinv]
  · intro n d hd
    rw [hinv]
    exact waiting n d (hpending _ d hd)
  · rwa [hinv]

theorem Streams.callStep {a : CallAct} (h : Streams s) (hc : s.invocations c = some inv)
    (hs : callStep s c inv a = some t) : Streams t := by
  have unanswered := h.failed c inv hc
  have collected := h.collected c inv hc
  cases callStep_move hs with
  | store hpc next =>
    refine h.move hc rfl ⟨rfl, rfl⟩ (by simp [hpc, PC.registered])
      (by simp [Client.setInvocation, Client.store]) (fun _ hd => hd) ?_ ?_ ?_ ?_
    · intro x d hd
      exact .inl (by simpa [Client.setInvocation, Client.store] using hd)
    · intro hne
      simpa [hpc, PC.registered] using collected hne
    · intro n d hd
      rcases Table.mem_store.mp hd with ⟨hk, rfl⟩ | ⟨hold, -⟩
      · refine .inr ⟨rfl, Key.id.inj hk, ?_⟩
        rcases next with rfl | rfl <;> rfl
      · refine .inl ⟨hold, fun _ hnone => ⟨hnone, fun _ => ?_⟩⟩
        rcases next with rfl | rfl <;> rfl
    · intro _
      rcases next with rfl | rfl <;> trivial
  | storeDelta hpc kind =>
    refine h.move hc rfl ⟨rfl, rfl⟩ (fun _ => rfl) (by simp [Client.setInvocation, Client.store])
      (fun _ hd => hd) ?_ (fun _ => rfl) ?_ fun _ => trivial
    · intro x d hd
      rcases Table.mem_store.mp hd with ⟨hk, rfl⟩ | ⟨hold, -⟩
      · exact .inr ⟨rfl, by rw [kind, Key.delta.inj hk], rfl⟩
      · exact .inl hold
    · intro n d hd
      rcases Table.mem_store.mp hd with ⟨hk, -⟩ | ⟨hold, -⟩
      · cases hk
      · exact .inl ⟨hold, fun _ hnone => ⟨hnone, fun _ => rfl⟩⟩
  | sent hpc =>
    exact h.move hc rfl ⟨rfl, rfl⟩ (fun _ => rfl) (fun _ => rfl) (fun _ hd => hd)
      (fun _ _ hd => .inl hd) (fun _ => rfl)
      (fun _ _ hd => .inl ⟨hd, fun _ hnone => ⟨hnone, fun _ => rfl⟩⟩) fun _ => trivial
  | fail hpc =>
    exact h.move hc rfl ⟨rfl, rfl⟩ (fun _ => rfl) (fun _ => rfl) (fun _ hd => hd)
      (fun _ _ hd => .inl hd) (fun _ => rfl)
      (fun _ _ hd => .inl ⟨hd, fun _ hnone => ⟨hnone, fun _ => rfl⟩⟩) fun _ => ⟨_, rfl⟩
  | takeDelta hpc hdelta =>
    refine h.move hc rfl ⟨rfl, rfl⟩ id (fun _ => rfl) ?_ (fun _ _ hd => .inl hd) ?_
      (fun _ _ hd => .inl ⟨hd, fun _ hnone => ⟨hnone, id⟩⟩) unanswered
    · intro d hd
      by_cases hdc : d = c
      · simp [hdc, hdelta]
      · simpa [Client.setInvocation, hdc] using hd
    · intro _
      rcases hpc with hpc | ⟨_, hpc⟩ <;> simp [hpc, PC.registered]
  | @takeReply resp pc hpc hreply next =>
    have hreg : pc.registered := by
      rcases next with ⟨rfl, -⟩ | ⟨rfl, -⟩ <;> rfl
    refine h.move hc rfl ⟨rfl, rfl⟩ (fun _ => hreg) (fun _ => rfl) (fun _ hd => hd)
      (fun _ _ hd => .inl hd) (fun _ => hreg) (fun _ _ hd => .inl ⟨hd, fun _ hnone => ?_⟩)
      fun hnone => ?_
    · simp at hnone
    · simp at hnone
  | drained hpc hdelta =>
    refine h.move hc rfl ⟨rfl, rfl⟩ (fun _ => rfl) (fun _ => rfl) (fun _ hd => hd)
      (fun _ _ hd => .inl hd) (fun _ => rfl) (fun _ _ hd => .inl ⟨hd, fun _ hnone => ?_⟩)
      fun hnone => ?_
    · exact absurd (unanswered hnone) (by simp [hpc, PC.Unanswered])
    · exact absurd (unanswered hnone) (by simp [hpc, PC.Unanswered])
  | deleteID hpc next =>
    refine h.move hc rfl ⟨rfl, rfl⟩ ?_ (by simp [Client.setInvocation, Client.delete])
      (fun _ hd => hd) (fun _ _ hd => .inl (Table.mem_delete.mp hd).1) ?_ ?_ ?_
    · intro _
      rcases next with rfl | rfl <;> rfl
    · intro _
      rcases next with rfl | rfl <;> rfl
    · intro n d hd
      obtain ⟨hold, hne⟩ := Table.mem_delete.mp hd
      refine .inl ⟨hold, ?_⟩
      rintro rfl
      obtain ⟨e, he, rfl, -⟩ := h.waiting n d hold
      obtain rfl : inv = e := by simpa [hc] using he
      exact absurd rfl hne
    · intro hnone
      have hfailed := unanswered hnone
      rw [hpc] at hfailed
      rcases next with rfl | rfl <;> exact hfailed
  | deleteDelta hpc kind =>
    refine h.move hc rfl ⟨rfl, rfl⟩ (fun _ => rfl) (by simp [Client.setInvocation, Client.delete])
      (fun _ hd => hd) (fun _ _ hd => .inl (Table.mem_delete.mp hd).1) (fun _ => rfl) ?_ ?_
    · intro n d hd
      refine .inl ⟨(Table.mem_delete.mp hd).1, fun _ hnone => ⟨hnone, fun hpc' => ?_⟩⟩
      simp [hpc, PC.released] at hpc'
    · intro hnone
      have hfailed := unanswered hnone
      rw [hpc] at hfailed
      exact hfailed

theorem Streams.dispatch (h : Streams s) (msg : Response) : Streams (dispatch s msg) := by
  have spec := dispatched s msg
  generalize ACP.dispatch s msg = u at spec ⊢
  cases spec with
  | reply =>
    exact h.read rfl (fun _ _ hd => (Table.mem_delete.mp hd).1) (fun _ hd => absurd rfl hd)
      fun _ hd => .inl hd
  | @chunk x text ch hchunk found =>
    refine h.read rfl (fun _ _ hd => hd) (fun d hd => ?_) fun _ hd => .inl hd
    obtain rfl : ch = d := by
      by_contra hne
      simp [Reader.inFlight, hne] at hd
    exact ⟨x, Table.mem_of_load found⟩
  | request | ignored =>
    exact h.read rfl (fun _ _ hd => hd) (fun _ hd => absurd rfl hd) fun _ hd => .inl hd

theorem Streams.readStep {a : ReadAct} (h : Streams s) (hs : readStep s a = some t) :
    Streams t := by
  cases readStep_move hs with
  | dispatch hr => exact h.dispatch _
  | leave | scan | skip | stop | reply | fail | drop | answer | visitID | visitDelta | sweepEnd =>
    exact h.read rfl (fun _ _ hd => hd) (fun _ hd => absurd rfl hd) fun _ hd => .inl hd
  | @deliver ch text hr room =>
    refine h.read rfl (fun _ _ hd => hd) (fun _ hd => absurd rfl hd) fun d hd => ?_
    by_cases hdc : d = ch
    · exact .inr (by simp [hr, Reader.inFlight, hdc])
    · exact .inl (by simpa [hdc] using hd)

theorem Streams.step {a : Act} (h : Streams s) (corr : Inv s) (hs : step s a = some t) :
    Streams t := by
  cases a with
  | start kind =>
    cases hs
    obtain ⟨entry, delivering, delivered, collected, waiting, failed⟩ := h
    constructor <;> simp only [Client.setInvocation]
    · intro x d hd
      obtain ⟨e, he, rest⟩ := entry x d hd
      exact ⟨e, corr.older he _, rest⟩
    · intro d hd
      obtain ⟨e, he, rest⟩ := delivering d hd
      exact ⟨e, corr.older he _, rest⟩
    · intro d hd
      obtain ⟨e, he, rest⟩ := delivered d hd
      exact ⟨e, corr.older he _, rest⟩
    · intro d e he hne
      rw [Function.update_apply] at he
      split_ifs at he with hd
      · cases he
        exact absurd rfl hne
      · exact collected d e he hne
    · intro n d hd
      obtain ⟨e, he, rest⟩ := waiting n d hd
      exact ⟨e, corr.older he _, rest⟩
    · intro d e he hnone
      rw [Function.update_apply] at he
      split_ifs at he with hd
      · cases he
        trivial
      · exact failed d e he hnone
  | call c a =>
    obtain ⟨inv, hc, hs⟩ := Option.bind_eq_some_iff.mp hs
    exact h.callStep hc hs
  | read a => exact h.readStep hs
  | close =>
    cases hs
    exact ⟨h.entry, h.delivering, h.delivered, h.collected, h.waiting, h.failed⟩

end Preservation

end Daedalus.ACP
