import Daedalus.ACP.Correlation

/-!
# Stranded callers

When the connection is gone the reader fails every pending call and returns. It has a second exit,
between two messages when `Close` has cancelled its context, where it fails nobody. And it leaves no
mark, so that a call that registers later waits for a reply that nobody will send.

A caller is covered as long as its reply is in its channel, or on the way there, or the reader will
still come to its entry. The reader covers every registered caller while it is in its loop, and what
it has to visit during the sweep. So a caller that registers while the reader is in its loop stays
covered until the reader returns between two messages. That happens only after `Close`, and harms
nobody if `Close` finds the reader in `Scan`, which then fails, or finds nobody waiting.
-/
namespace Daedalus.ACP

open Foundation

namespace Reader

/-- The reader is in its loop. -/
def inLoop : Reader → Bool
  | .sweeping _ | .failing _ _ | .done => false
  | _ => true

/-- The reader is in `Scan`. -/
def scans : Reader → Bool
  | .scanning => true
  | _ => false

/-- The reader has returned. -/
def returned : Reader → Bool
  | .done => true
  | _ => false

theorem returned_iff {r : Reader} : r.returned ↔ r = .done := by
  cases r <;> simp [returned]

/-- The reader will come to the entry of channel `c` under ID `n`, or dispatch a response to it. -/
def Reaches (r : Reader) (pending : Table Key ℕ) (n : Int64) (c : ℕ) : Prop :=
  match r with
  | .done => False
  | .sweeping it => .id n ∈ it.owed ∧ .id n ∉ it.visited
  | .failing _ it => .id n ∈ it.owed ∧ .id n ∉ it.visited
  | _ => (.id n, c) ∈ pending

variable {r : Reader} {pending : Table Key ℕ} {k : Key} {n : Int64} {c d : ℕ}

@[simp] theorem inLoop_noteStore : (r.noteStore k c).inLoop = r.inLoop := by
  cases r <;> rfl

@[simp] theorem inLoop_noteDelete : (r.noteDelete k).inLoop = r.inLoop := by
  cases r <;> rfl

@[simp] theorem scans_noteStore : (r.noteStore k c).scans = r.scans := by
  cases r <;> rfl

@[simp] theorem scans_noteDelete : (r.noteDelete k).scans = r.scans := by
  cases r <;> rfl

/-- In the loop the reader reaches what is in the map. -/
theorem reaches_of_inLoop (h : r.inLoop) : r.Reaches pending n c ↔ (.id n, c) ∈ pending := by
  cases r with
  | sweeping | failing | done => cases h
  | head | scanning | sending | delivering | answering => rfl

theorem Reaches.store (h : r.Reaches pending n c) (hk : .id n ≠ k) :
    (r.noteStore k d).Reaches (pending.store k d) n c := by
  cases r with
  | done | sweeping | failing => exact h
  | head | scanning | sending | delivering | answering => exact Table.mem_store.mpr (.inr ⟨h, hk⟩)

theorem Reaches.delete (h : r.Reaches pending n c) (hk : .id n ≠ k) :
    (r.noteDelete k).Reaches (pending.delete k) n c := by
  cases r with
  | done => exact h
  | sweeping | failing => exact ⟨List.mem_filter.mpr ⟨h.1, by simpa using hk⟩, h.2⟩
  | head | scanning | sending | delivering | answering => exact Table.mem_delete.mpr ⟨h, hk⟩

end Reader

/-- The reply of invocation `c` is in its channel or on the way, or the reader will still come to
its entry. -/
def Covered (s : Client) (c : ℕ) (inv : Invocation) : Prop :=
  s.reply c ≠ none ∨ s.reader.target.map (·.1) = some c ∨ s.reader.Reaches s.pending inv.id c

/-- The reply channel is registered and no reply has been taken from it. -/
def PC.expectant : PC → Bool
  | .storeDelta | .send | .wait => true
  | _ => false

/-- No invocation outside `late` is between its registration and its reply. -/
def Idle (late : Finset ℕ) (s : Client) : Prop :=
  ∀ c < s.next, c ∉ late → ∀ inv ∈ s.invocations c, inv.pc.expectant = false

instance (late : Finset ℕ) (s : Client) : Decidable (Idle late s) :=
  inferInstanceAs (Decidable (∀ c < s.next, c ∉ late → ∀ inv ∈ s.invocations c, _))

/-- What keeps callers from being stranded. Whoever registers when the reader has left its loop or
`Close` has been called is `late`, and does not get its request written. `Close` is called while the
reader is in `Scan`, which then returns no more lines, or when the reader has left its loop, or when
no call is in progress. IDs are not used twice. -/
def Attended (late : Finset ℕ) (s : Client) : Act → Prop
  | .call c .store => c ∉ late → s.reader.inLoop ∧ s.closed = false
  | .call c (.send none) => c ∉ late
  | .close => s.reader.inLoop → s.reader.scans ∨ Idle late s
  | .read (.line _) => s.closed → Idle late s
  | .start _ => ∀ c < s.next, ∀ inv ∈ s.invocations c, inv.id ≠ s.nextID + 1
  | _ => True

instance Attended.decidable (late : Finset ℕ) (s : Client) :
    (a : Act) → Decidable (Attended late s a)
  | .call c .store => inferInstanceAs (Decidable (c ∉ late → _ ∧ _))
  | .call c (.send none) => inferInstanceAs (Decidable (c ∉ late))
  | .close => inferInstanceAs (Decidable (_ → _ ∨ Idle late s))
  | .read (.line _) => inferInstanceAs (Decidable (_ → Idle late s))
  | .start _ => inferInstanceAs (Decidable (∀ c < s.next, ∀ inv ∈ s.invocations c, _))
  | .read .poll | .read .stop | .read .send | .read .deliver | .read (.answer _)
  | .read (.visit _ _) | .read .sweepEnd | .call _ .storeDelta | .call _ (.send (some _))
  | .call _ (.ctxDone _) | .call _ .receiveDelta | .call _ .receiveReply | .call _ .drain
  | .call _ .deleteID | .call _ .deleteDelta => isTrue trivial

/-- IDs are distinct, who is late does not wait, and who is registered in time is covered. When the
reader is to return between two messages, nobody is registered. -/
structure Accounted (late : Finset ℕ) (s : Client) : Prop where
  distinct : ∀ c d e f, s.invocations c = some e → s.invocations d = some f → e.id = f.id → c = d
  unwritten : ∀ c ∈ late, ∀ inv, s.invocations c = some inv → inv.pc ≠ .wait
  covered : ∀ c ∉ late, ∀ inv, s.invocations c = some inv → inv.pc.expectant → Covered s c inv
  quiet : s.closed → s.reader.inLoop → s.reader.scans ∨ Idle late s

section Preservation

variable {late : Finset ℕ} {s t : Client} {c d : ℕ} {inv inv' : Invocation} {k : Key}

theorem Covered.store (h : Covered s c inv) (hk : .id inv.id ≠ k) :
    Covered (s.store k d) c inv := by
  rcases h with h | h | h
  · exact .inl h
  · exact .inr (.inl (by simpa [Client.store] using h))
  · exact .inr (.inr (h.store hk))

theorem Covered.delete (h : Covered s c inv) (hk : .id inv.id ≠ k) :
    Covered (s.delete k) c inv := by
  rcases h with h | h | h
  · exact .inl h
  · exact .inr (.inl (by simpa [Client.delete] using h))
  · exact .inr (.inr (h.delete hk))

/-- A step of invocation `c`, which has to be covered after it if it is registered in time. -/
theorem Accounted.move (h : Accounted late s) (hc : s.invocations c = some inv)
    (hinv : t.invocations = Function.update s.invocations c (some inv')) (hid : inv'.id = inv.id)
    (hnext : t.next = s.next) (hclosed : t.closed = s.closed)
    (hloop : t.reader.inLoop = s.reader.inLoop) (hscans : t.reader.scans = s.reader.scans)
    (others : ∀ d e, d ≠ c → s.invocations d = some e → e.id ≠ inv.id → Covered s d e →
      Covered t d e)
    (written : inv'.pc = .wait → c ∉ late)
    (self : c ∉ late → inv'.pc.expectant → Covered t c inv' ∧
      (inv.pc.expectant ∨ s.closed = false)) : Accounted late t := by
  have old : ∀ d e, t.invocations d = some e →
      ∃ e₀, s.invocations d = some e₀ ∧ e.id = e₀.id ∧ (d ≠ c → e = e₀) := by
    intro d e he
    rw [hinv, Function.update_apply] at he
    split_ifs at he with hdc
    · cases he
      exact ⟨inv, hdc ▸ hc, hid, fun hne => absurd hdc hne⟩
    · exact ⟨e, he, rfl, fun _ => rfl⟩
  have moved : ∀ e, t.invocations c = some e → e = inv' := by
    intro e he
    simpa [hinv, eq_comm] using he
  refine ⟨?_, ?_, ?_, ?_⟩
  · intro d d' e f he hf hef
    obtain ⟨e₀, he₀, hide, -⟩ := old d e he
    obtain ⟨f₀, hf₀, hidf, -⟩ := old d' f hf
    exact h.distinct d d' e₀ f₀ he₀ hf₀ (by rw [← hide, ← hidf, hef])
  · intro d hlate e he hwait
    by_cases hdc : d = c
    · subst hdc
      obtain rfl := moved e he
      exact written hwait hlate
    · obtain ⟨e₀, he₀, -, hsame⟩ := old d e he
      obtain rfl := hsame hdc
      exact h.unwritten d hlate e he₀ hwait
  · intro d hlate e he hreg
    by_cases hdc : d = c
    · subst hdc
      obtain rfl := moved e he
      exact (self hlate hreg).1
    · obtain ⟨e₀, he₀, -, hsame⟩ := old d e he
      obtain rfl := hsame hdc
      have hne : e.id ≠ inv.id := fun heq => hdc (h.distinct d c e inv he₀ hc heq)
      exact others d e hdc he₀ hne (h.covered d hlate e he₀ hreg)
  · intro closed hin
    rw [hclosed] at closed
    rw [hscans]
    refine (h.quiet closed (hloop ▸ hin)).imp_right fun idle d hd hlate e he => ?_
    rw [hnext] at hd
    by_cases hdc : d = c
    · subst hdc
      obtain rfl := moved e he
      by_contra hreg
      rcases (self hlate (by simpa using hreg)).2 with was | isOpen
      · rw [idle d hd hlate inv hc] at was
        cases was
      · rw [isOpen] at closed
        cases closed
    · obtain ⟨e₀, he₀, -, hsame⟩ := old d e he
      obtain rfl := hsame hdc
      exact idle d hd hlate e he₀

/-- A step of the reader under which whoever was covered still is. -/
theorem Accounted.read (h : Accounted late s) (hinv : t.invocations = s.invocations)
    (hnext : t.next = s.next)
    (all : ∀ d e, s.invocations d = some e → Covered s d e → Covered t d e)
    (quiet : t.closed → t.reader.inLoop → t.reader.scans ∨ Idle late s) : Accounted late t := by
  refine ⟨by rw [hinv]; exact h.distinct, by rw [hinv]; exact h.unwritten, ?_, ?_⟩
  · intro d hlate e he hreg
    rw [hinv] at he
    exact all d e he (h.covered d hlate e he hreg)
  · unfold Idle
    rw [hinv, hnext]
    exact quiet

theorem Accounted.callStep {a : CallAct} (h : Accounted late s) (hc : s.invocations c = some inv)
    (hok : Attended late s (.call c a)) (hs : callStep s c inv a = some t) : Accounted late t := by
  cases callStep_move hs with
  | store hpc next =>
    refine h.move hc rfl rfl rfl rfl (by simp [Client.setInvocation, Client.store])
      (by simp [Client.setInvocation, Client.store]) ?_ ?_ ?_
    · intro d e _ _ hne hcov
      exact hcov.store fun heq => hne (Key.id.inj heq)
    · intro hwait
      rcases next with rfl | rfl <;> cases hwait
    · intro hlate _
      obtain ⟨hin, isOpen⟩ := hok hlate
      refine ⟨.inr (.inr ?_), .inr isOpen⟩
      have hin : (s.reader.noteStore (.id inv.id) c).inLoop := by simpa using hin
      exact (Reader.reaches_of_inLoop hin).mpr (Table.mem_store.mpr (.inl ⟨rfl, rfl⟩))
  | storeDelta hpc kind =>
    refine h.move hc rfl rfl rfl rfl (by simp [Client.setInvocation, Client.store])
      (by simp [Client.setInvocation, Client.store]) ?_ ?_ ?_
    · intro d e _ _ _ hcov
      exact hcov.store (by simp)
    · intro hwait
      cases hwait
    · intro hlate _
      have hreg : inv.pc.expectant := by rw [hpc]; rfl
      exact ⟨(h.covered c hlate inv hc hreg).store (by simp), .inl hreg⟩
  | sent hpc =>
    have hreg : inv.pc.expectant := by rw [hpc]; rfl
    exact h.move hc rfl rfl rfl rfl rfl rfl (fun _ _ _ _ _ hcov => hcov) (fun _ => hok)
      fun hlate _ => ⟨h.covered c hlate inv hc hreg, .inl hreg⟩
  | fail hpc | drained hpc hdelta =>
    refine h.move hc rfl rfl rfl rfl rfl rfl (fun _ _ _ _ _ hcov => hcov) ?_ ?_
    · intro hwait
      cases hwait
    · intro _ hreg
      cases hreg
  | takeDelta hpc hdelta =>
    refine h.move hc rfl rfl rfl rfl rfl rfl (fun _ _ _ _ _ hcov => hcov) ?_ ?_
    · exact fun hwait hlate => h.unwritten c hlate inv hc hwait
    · exact fun hlate hreg => ⟨h.covered c hlate inv hc hreg, .inl hreg⟩
  | takeReply hpc hreply next =>
    refine h.move hc rfl rfl rfl rfl rfl rfl ?_ ?_ ?_
    · intro d e hdc _ _ hcov
      simpa [Covered, Client.setInvocation, hdc] using hcov
    · intro hwait
      rcases next with ⟨rfl, -⟩ | ⟨rfl, -⟩ <;> cases hwait
    · intro _ hreg
      rcases next with ⟨rfl, -⟩ | ⟨rfl, -⟩ <;> cases hreg
  | deleteID hpc next =>
    refine h.move hc rfl rfl rfl rfl (by simp [Client.setInvocation, Client.delete])
      (by simp [Client.setInvocation, Client.delete]) ?_ ?_ ?_
    · intro d e _ _ hne hcov
      exact hcov.delete fun heq => hne (Key.id.inj heq)
    · intro hwait
      rcases next with rfl | rfl <;> cases hwait
    · intro _ hreg
      rcases next with rfl | rfl <;> cases hreg
  | deleteDelta hpc kind =>
    refine h.move hc rfl rfl rfl rfl (by simp [Client.setInvocation, Client.delete])
      (by simp [Client.setInvocation, Client.delete]) ?_ ?_ ?_
    · intro d e _ _ _ hcov
      exact hcov.delete (by simp)
    · intro hwait
      cases hwait
    · intro _ hreg
      cases hreg

/-- A reader that has nothing to send goes on, and still comes to the entry. -/
theorem Covered.of_reaches {r : Reader} (h : Covered s c inv) (htarget : s.reader.target = none)
    (reach : s.reader.Reaches s.pending inv.id c → r.Reaches s.pending inv.id c) :
    Covered { s with reader := r } c inv := by
  rcases h with h | h | h
  · exact .inl h
  · simp [htarget] at h
  · exact .inr (.inr (reach h))


/-- The reader goes from one point of its loop to another without a reply in hand. -/
theorem Covered.pass {r : Reader} (h : Covered s c inv) (htarget : s.reader.target = none)
    (hloop : s.reader.inLoop) (hr : r.inLoop) : Covered { s with reader := r } c inv :=
  h.of_reaches htarget fun h =>
    (Reader.reaches_of_inLoop hr).mpr ((Reader.reaches_of_inLoop hloop).mp h)

theorem Accounted.dispatch (h : Accounted late s) (corr : Inv s) (hr : s.reader = .scanning)
    (idle : s.closed → Idle late s) (msg : Response) : Accounted late (dispatch s msg) := by
  have hloop : s.reader.inLoop := by rw [hr]; rfl
  have htarget : s.reader.target = none := by rw [hr]; rfl
  have spec := dispatched s msg
  generalize ACP.dispatch s msg = u at spec ⊢
  cases spec with
  | @reply id ch hid found =>
    have hmem := Table.mem_of_load found
    obtain ⟨owner, howner, rfl, -⟩ := corr.found id ch (by rw [hr]; exact hmem)
    refine h.read rfl rfl ?_ fun closed _ => .inr (idle closed)
    intro d e he hcov
    -- The entry that is taken out is the one of the channel the reader now sends to.
    by_cases hid : e.id = owner.id
    · obtain rfl := h.distinct d ch e owner he howner hid
      exact .inr (.inl rfl)
    · rcases hcov with hcov | hcov | hcov
      · exact .inl hcov
      · simp [htarget] at hcov
      · refine .inr (.inr (Table.mem_delete.mpr ⟨?_, fun heq => hid (Key.id.inj heq)⟩))
        exact (Reader.reaches_of_inLoop hloop).mp hcov
  | chunk | request | ignored =>
    exact h.read rfl rfl (fun _ _ _ hcov => hcov.pass htarget hloop rfl)
      fun closed _ => .inr (idle closed)

/-- The reader sends to the channel it aims at. -/
theorem Covered.reply {msg : Response} {r : Reader} (h : Covered s d inv)
    (aim : s.reader.target = some (c, msg))
    (hreach : s.reader.Reaches s.pending inv.id d → r.Reaches s.pending inv.id d) :
    Covered { s with reply := Function.update s.reply c (some msg), reader := r } d inv := by
  by_cases hdc : d = c
  · exact .inl (by simp [hdc])
  · rcases h with h | h | h
    · exact .inl (by simpa [hdc] using h)
    · exact absurd (by simpa [aim] using h) (Ne.symm hdc)
    · exact .inr (.inr (hreach h))

/-- The sweep visits an entry under another key. -/
theorem Covered.visit {it it' : Iteration Key ℕ} {r : Reader} {ch : ℕ} (h : Covered s d inv)
    (hr : s.reader = .sweeping it) (visit : it.visit k ch = some it') (hk : .id inv.id ≠ k)
    (reach : (.id inv.id ∈ it'.owed ∧ .id inv.id ∉ it'.visited) → r.Reaches s.pending inv.id d) :
    Covered { s with reader := r } d inv := by
  refine h.of_reaches (by rw [hr]; rfl) fun h => reach ?_
  rw [hr] at h
  obtain rfl := Iteration.visit_eq visit
  exact ⟨h.1, by simpa [hk] using h.2⟩

/-- Between two messages and outside `Scan`, `Close` has found nobody waiting. -/
theorem Accounted.idle (h : Accounted late s) (hin : s.reader.inLoop)
    (hscans : s.reader.scans = false) (closed : s.closed) : Idle late s := by
  rcases h.quiet closed hin with scans | idle
  · rw [hscans] at scans
    cases scans
  · exact idle

theorem Accounted.readStep {a : ReadAct} (h : Accounted late s) (corr : Inv s)
    (hok : Attended late s (.read a)) (hs : readStep s a = some t) : Accounted late t := by
  cases readStep_move hs with
  | leave hr closed =>
    -- The exit without a sweep: nobody is registered.
    have idle := h.idle (by rw [hr]; rfl) (by rw [hr]; rfl) closed
    refine ⟨h.distinct, h.unwritten, ?_, fun _ hin => by cases hin⟩
    intro c hlate inv hc hreg
    rw [idle c (corr.lt_next hc) hlate inv hc] at hreg
    cases hreg
  | dispatch hr => exact h.dispatch corr hr hok _
  | scan hr isOpen =>
    refine h.read rfl rfl (fun d e he hcov => ?_) fun closed _ => ?_
    · exact hcov.pass (by rw [hr]; rfl) (by rw [hr]; rfl) rfl
    · exact .inl rfl
  | skip hr =>
    refine h.read rfl rfl (fun d e he hcov => ?_) fun closed _ => .inr (hok closed)
    exact hcov.pass (by rw [hr]; rfl) (by rw [hr]; rfl) rfl
  | deliver hr | drop hr | answer hr =>
    refine h.read rfl rfl (fun d e he hcov => ?_) fun closed _ => .inr ?_
    · exact hcov.pass (by rw [hr]; rfl) (by rw [hr]; rfl) rfl
    · exact h.idle (by rw [hr]; rfl) (by rw [hr]; rfl) closed
  | stop hr =>
    refine h.read rfl rfl (fun d e he hcov => ?_) fun _ hin => by cases hin
    refine hcov.of_reaches (by rw [hr]; rfl) fun hcov => ?_
    rw [hr] at hcov
    exact ⟨List.mem_map.mpr ⟨_, hcov, rfl⟩, by simp [Iteration.start]⟩
  | reply hr =>
    refine h.read rfl rfl (fun d e he hcov => ?_) fun closed _ => .inr ?_
    · exact hcov.reply (by rw [hr]; rfl) (by rw [hr]; exact id)
    · exact h.idle (by rw [hr]; rfl) (by rw [hr]; rfl) closed
  | fail hr =>
    refine h.read rfl rfl (fun d e he hcov => ?_) fun _ hin => by cases hin
    exact hcov.reply (by rw [hr]; rfl) (by rw [hr]; exact id)
  | @visitID n ch it it' hr visit =>
    obtain ⟨ahead, -⟩ := Iteration.visit_ahead visit
    obtain ⟨owner, howner, rfl, -⟩ := corr.found n ch (by rw [hr]; exact ahead)
    refine h.read rfl rfl (fun d e he hcov => ?_) fun _ hin => by cases hin
    by_cases hid : e.id = owner.id
    · obtain rfl := h.distinct d ch e owner he howner hid
      exact .inr (.inl rfl)
    · exact hcov.visit hr visit (fun heq => hid (Key.id.inj heq)) id
  | visitDelta hr visit =>
    refine h.read rfl rfl (fun d e he hcov => ?_) fun _ hin => by cases hin
    exact hcov.visit hr visit (by simp) id
  | sweepEnd hr finished =>
    refine h.read rfl rfl (fun d e he hcov => ?_) fun _ hin => by cases hin
    refine hcov.of_reaches (by rw [hr]; rfl) fun hcov => ?_
    rw [hr] at hcov
    exact absurd (Iteration.visited_of_finished finished hcov.1) hcov.2

/-- An invocation that begins is not registered. -/
theorem Accounted.start (h : Accounted late s) (corr : Inv s) {kind : Kind}
    (fresh : Attended late s (.start kind)) (hs : step s (.start kind) = some t) :
    Accounted late t := by
  cases hs
  have other : ∀ d e, Function.update s.invocations s.next
      (some { kind, id := s.nextID + 1, pc := .store }) d = some e →
      e.pc = .store ∨ s.invocations d = some e := by
    intro d e he
    rw [Function.update_apply] at he
    split_ifs at he with hd
    · cases he
      exact .inl rfl
    · exact .inr he
  refine ⟨?_, ?_, ?_, ?_⟩
  · simp only [Client.setInvocation, Function.update_apply]
    intro c d e f hc hd hid
    split_ifs at hc hd with hcn hdn hdn
    · rw [hcn, hdn]
    · cases hc
      exact absurd hid.symm (fresh d (corr.lt_next hd) f hd)
    · cases hd
      exact absurd hid (fresh c (corr.lt_next hc) e hc)
    · exact h.distinct c d e f hc hd hid
  · intro c hlate inv hc hwait
    rcases other c inv hc with hpc | hc
    · rw [hpc] at hwait
      cases hwait
    · exact h.unwritten c hlate inv hc hwait
  · intro c hlate inv hc hreg
    rcases other c inv hc with hpc | hc
    · rw [hpc] at hreg
      cases hreg
    · exact h.covered c hlate inv hc hreg
  · intro closed hin
    refine (h.quiet closed hin).imp_right fun idle c _ hlate inv hc => ?_
    rcases other c inv hc with hpc | hc
    · rw [hpc]
      rfl
    · exact idle c (corr.lt_next hc) hlate inv hc

theorem Accounted.step {a : Act} (h : Accounted late s) (corr : Inv s) (hok : Attended late s a)
    (hs : step s a = some t) : Accounted late t := by
  cases a with
  | start kind => exact h.start corr hok hs
  | call c a =>
    obtain ⟨inv, hc, hs⟩ := Option.bind_eq_some_iff.mp hs
    exact h.callStep hc hok hs
  | read a => exact h.readStep corr hok hs
  | close =>
    cases hs
    exact ⟨h.distinct, h.unwritten, h.covered, fun _ hin => hok hin⟩

end Preservation

/-! ## Every run -/

/-- Once the reader has returned, nobody waits on an empty reply channel. -/
def NoStranded (s : Client) : Prop :=
  s.reader = .done → ∀ c inv, s.invocations c = some inv → inv.pc = .wait → s.reply c ≠ none

/-- In every run in which callers are attended to, nobody is stranded. -/
theorem no_stranded_caller {late : Finset ℕ} {acts : List Act} {s : Client}
    (hok : Meets step (Attended late) .new acts) (h : run step .new acts = some s) :
    NoStranded s := by
  have new : Accounted late .new := by
    constructor <;> simp [Client.new]
  obtain ⟨-, accounted⟩ := Meets.invariant (fun s => Inv s ∧ Accounted late s)
    (fun _ _ _ hs hok hstep => ⟨hs.1.step hstep, hs.2.step hs.1 hok hstep⟩) hok h ⟨.new, new⟩
  intro hdone c inv hc hwait
  have intime : c ∉ late := fun hlate => accounted.unwritten c hlate inv hc hwait
  rcases accounted.covered c intime inv hc (by rw [hwait]; rfl) with hcov | hcov | hcov
  · exact hcov
  · simp [hdone, Reader.target] at hcov
  · rw [hdone] at hcov
    exact hcov.elim

/-- The peer closes the connection while one call waits and another one has registered. The sweep
fails both, also the one that is written afterwards. A prompt that comes later cannot be written. -/
def failedBySweep : List Act := [
  .start (.call "session/new"), .call 0 .store, .call 0 (.send none),
  .start (.call "session/cancel"), .call 1 .store, .read .poll, .read .stop,
  .read (.visit (.id 1) 0), .read .send, .read (.visit (.id 2) 1), .read .send, .read .sweepEnd,
  .call 1 (.send none), .start (.prompt "s"), .call 2 .store, .call 2 .storeDelta,
  .call 2 (.send (some (.new "write"))), .close]

theorem no_stranded_caller_swept :
    ∃ s, run step .new failedBySweep = some s ∧ s.reader = .done ∧
      s.reply 0 = some connectionClosed ∧ s.reply 1 = some connectionClosed ∧ NoStranded s := by
  have attended : Meets step (Attended {2}) .new failedBySweep := by decide
  have observed : (run step .new failedBySweep).map (fun s =>
      (s.reader.returned, s.reply 0, s.reply 1)) =
      some (true, some connectionClosed, some connectionClosed) := by decide
  obtain ⟨s, hs, e⟩ := Option.map_eq_some_iff.mp observed
  simp only [Prod.mk.injEq] at e
  obtain ⟨hdone, hfirst, hsecond⟩ := e
  exact ⟨s, hs, Reader.returned_iff.mp hdone, hfirst, hsecond, no_stranded_caller attended hs⟩

/-- The peer closes the connection and the reader returns. Then a call registers, its request is
still accepted by the connection, and it waits. -/
def lateCall : List Act := [
  .read .poll, .read .stop, .read .sweepEnd,
  .start (.call "session/new"), .call 0 .store, .call 0 (.send none)]

/-- A prompt waits. The reader has handled an update when `Close` cancels its context, and it
returns at the head of its loop. -/
def closedBetween : List Act := [
  .start (.prompt "s"), .call 0 .store, .call 0 .storeDelta, .call 0 (.send none),
  .read .poll, .read (.line (some { method := "session/update" })), .close, .read .poll]

theorem stranded_callers :
    (∃ s, run step .new lateCall = some s ∧ ¬ NoStranded s) ∧
      ∃ s, run step .new closedBetween = some s ∧ ¬ NoStranded s := by
  have stranded : ∀ acts, (run step .new acts).map (fun s =>
      (s.reader.returned, (s.invocations 0).map (·.pc), s.reply 0)) =
        some (true, some .wait, none) →
      ∃ s, run step .new acts = some s ∧ ¬ NoStranded s := by
    intro acts observed
    obtain ⟨s, hs, e⟩ := Option.map_eq_some_iff.mp observed
    simp only [Prod.mk.injEq] at e
    obtain ⟨hdone, hpc, hreply⟩ := e
    obtain ⟨inv, hinv, hwait⟩ := Option.map_eq_some_iff.mp hpc
    refine ⟨s, hs, fun safe => ?_⟩
    exact safe (Reader.returned_iff.mp hdone) 0 inv hinv hwait hreply
  exact ⟨stranded lateCall (by decide), stranded closedBetween (by decide)⟩

end Daedalus.ACP
