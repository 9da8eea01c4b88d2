import Daedalus.Foundation.Run

/-!
# Gathering what goroutines return

One goroutine is started for each of `n` positions. It makes a call, and sends what the call
returned to a channel with room for `n` values, from which somebody receives. The calls return in
any order and after any time.

`Tracks` relates the goroutines and the channel to what happened so far: whose call was made, what
the calls returned and what was received. A value is sent for the position it was returned at, and
once; so the sender never blocks, and when `n` values have been received they are what the `n` calls
returned, in some order.
-/
namespace Daedalus.Foundation

/-! ## Lists of positions -/

/-- The list has the positions with `p`, each once. -/
structure Enumerates (l : List ℕ) (p : ℕ → Prop) : Prop where
  nodup : l.Nodup
  mem : ∀ i, i ∈ l ↔ p i

section Enumerates

variable {l : List ℕ} {p q : ℕ → Prop} {n i : ℕ}

theorem Enumerates.congr (h : Enumerates l p) (same : ∀ i, q i ↔ p i) : Enumerates l q :=
  ⟨h.nodup, fun i => (h.mem i).trans (same i).symm⟩

/-- A position is added. -/
theorem Enumerates.snoc (h : Enumerates l p) (new : ¬ p i) (added : ∀ j, q j ↔ p j ∨ j = i) :
    Enumerates (l ++ [i]) q := by
  refine ⟨?_, fun j => ?_⟩
  · rw [List.nodup_append_comm, List.singleton_append, List.nodup_cons, h.mem]
    exact ⟨new, h.nodup⟩
  · rw [List.mem_append, List.mem_singleton, h.mem, added]

theorem Enumerates.subset_range (h : Enumerates l p) (below : ∀ i, p i → i < n) :
    l ⊆ List.range n := by
  intro i hi
  exact List.mem_range.mpr (below i ((h.mem i).mp hi))

theorem Enumerates.length_le (h : Enumerates l p) (below : ∀ i, p i → i < n) : l.length ≤ n := by
  simpa using (List.subperm_of_subset h.nodup (h.subset_range below)).length_le

/-- As long as a position is missing there are fewer than `n`. -/
theorem Enumerates.length_lt (h : Enumerates l p) (below : ∀ i, p i → i < n) (hi : i < n)
    (missing : ¬ p i) : l.length < n := by
  have more : Enumerates (l ++ [i]) fun j => p j ∨ j = i := h.snoc missing fun _ => .rfl
  have := more.length_le (n := n) (by rintro j (hj | rfl) <;> [exact below j hj; exact hi])
  simpa using this

theorem Enumerates.perm_range (h : Enumerates l p) (all : ∀ i, p i ↔ i < n) :
    l.Perm (List.range n) := by
  rw [List.perm_ext_iff_of_nodup h.nodup List.nodup_range]
  intro i
  rw [h.mem, all, List.mem_range]

/-- With `n` positions below `n`, none is missing. -/
theorem Enumerates.all (h : Enumerates l p) (below : ∀ i, p i → i < n) (length : l.length = n) :
    ∀ i, p i ↔ i < n := by
  refine fun i => ⟨below i, fun hi => ?_⟩
  by_contra missing
  have := h.length_lt below hi missing
  omega

end Enumerates

/-! ## Goroutines -/

/-- Where a goroutine is: before its call, in the call with something it keeps meanwhile, about to
send, or past the send. -/
inductive Worker (γ β : Type*) where
  | pending
  | calling (kept : γ)
  | holding (value : β)
  | sent

variable {γ β : Type*}

/-- The call was made. -/
def Worker.Called : Worker γ β → Prop
  | .pending => False
  | _ => True

/-- The call has returned. -/
def Worker.Answered : Worker γ β → Prop
  | .holding _ => True
  | .sent => True
  | _ => False

theorem Worker.Answered.called {w : Worker γ β} (h : w.Answered) : w.Called := by
  cases w <;> simp_all [Worker.Answered, Worker.Called]

/-- What the first `n` goroutines have left to do, if a place in the code is worth `weight`. -/
def remaining (n : ℕ) (weight : Worker γ β → ℕ) (workers : ℕ → Worker γ β) : ℕ :=
  ∑ i ∈ Finset.range n, weight (workers i)

/-- One goroutine moves. -/
theorem remaining_update {n i : ℕ} (hi : i < n) (weight : Worker γ β → ℕ)
    (workers : ℕ → Worker γ β) (w : Worker γ β) :
    remaining n weight (Function.update workers i w) + weight (workers i) =
      remaining n weight workers + weight w := by
  have hmem : i ∈ Finset.range n := Finset.mem_range.mpr hi
  have others : ∑ j ∈ (Finset.range n).erase i, weight (Function.update workers i w j) =
      ∑ j ∈ (Finset.range n).erase i, weight (workers j) := by
    refine Finset.sum_congr rfl fun j hj => ?_
    rw [Function.update_of_ne (Finset.ne_of_mem_erase hj)]
  rw [remaining, remaining, ← Finset.add_sum_erase _ _ hmem, others, Function.update_self,
    ← Finset.add_sum_erase _ (fun j => weight (workers j)) hmem]
  omega

/-- The goroutines, of which some have been started, and the channel. A value goes with the position
of its sender. -/
structure Gather (γ β : Type*) where
  launched : ℕ
  workers : ℕ → Worker γ β
  channel : List (ℕ × β)

namespace Gather

def new : Gather γ β where
  launched := 0
  workers _ := .pending
  channel := []

/-- One more goroutine is started. -/
def launch (g : Gather γ β) : Gather γ β := { g with launched := g.launched + 1 }

def setWorker (g : Gather γ β) (i : ℕ) (w : Worker γ β) : Gather γ β :=
  { g with workers := Function.update g.workers i w }

theorem workers_setWorker (g : Gather γ β) (i : ℕ) (w : Worker γ β) (j : ℕ) :
    (g.setWorker i w).workers j = if j = i then w else g.workers j :=
  Function.update_apply ..

def send (g : Gather γ β) (i : ℕ) (value : β) : Gather γ β :=
  { g.setWorker i .sent with channel := g.channel ++ [(i, value)] }

/-- The goroutines and the channel, for the calls that were made, what they returned and what was
received, each list oldest first. -/
structure Tracks (n : ℕ) (calls : List ℕ) (returns received : List (ℕ × β)) (g : Gather γ β) :
    Prop where
  launched : g.launched ≤ n
  started : ∀ i, (g.workers i).Called → i < g.launched
  called : Enumerates calls fun i => (g.workers i).Called
  answered : Enumerates (returns.map Prod.fst) fun i => (g.workers i).Answered
  sent : Enumerates ((received ++ g.channel).map Prod.fst) fun i => g.workers i = .sent
  held : ∀ i b, g.workers i = .holding b → (i, b) ∈ returns
  own : ∀ m ∈ received ++ g.channel, m ∈ returns

section Tracks

variable {n i : ℕ} {calls : List ℕ} {returns received : List (ℕ × β)} {g : Gather γ β} {b : β}

theorem Tracks.new (n : ℕ) : Tracks n [] [] [] (new : Gather γ β) := by
  constructor
  case called | answered | sent => constructor <;> simp [Gather.new, Worker.Called, Worker.Answered]
  all_goals simp [Gather.new, Worker.Called]

theorem Tracks.launch (h : Tracks n calls returns received g) (more : g.launched < n) :
    Tracks n calls returns received g.launch :=
  { h with
    launched := more
    started := fun i hi => Nat.lt_succ_of_lt (h.started i hi) }

theorem Tracks.call (h : Tracks n calls returns received g) (hi : i < g.launched)
    (hw : g.workers i = .pending) (kept : γ) :
    Tracks n (calls ++ [i]) returns received (g.setWorker i (.calling kept)) := by
  obtain ⟨launched, started, called, answered, sent, held, own⟩ := h
  have uncalled : ¬ (g.workers i).Called := by simp [hw, Worker.Called]
  refine ⟨launched, ?_, called.snoc uncalled ?_, answered.congr ?_, sent.congr ?_, ?_, own⟩ <;>
    simp only [setWorker, Function.update_apply] <;> grind [Worker.Called, Worker.Answered]

theorem Tracks.ret (h : Tracks n calls returns received g) {kept : γ}
    (hw : g.workers i = .calling kept) (b : β) :
    Tracks n calls (returns ++ [(i, b)]) received (g.setWorker i (.holding b)) := by
  obtain ⟨launched, started, called, answered, sent, held, own⟩ := h
  refine ⟨launched, ?_, called.congr ?_, ?_, sent.congr ?_, ?_, ?_⟩
  · simp only [setWorker, Function.update_apply]
    grind [Worker.Called]
  · simp only [setWorker, Function.update_apply]
    grind [Worker.Called]
  · rw [List.map_append]
    refine answered.snoc ?_ ?_ <;> simp only [setWorker, Function.update_apply] <;>
      grind [Worker.Answered]
  · simp only [setWorker, Function.update_apply]
    grind
  · simp only [setWorker, Function.update_apply]
    grind
  · intro m hm
    exact List.mem_append_left _ (own m hm)

theorem Tracks.send (h : Tracks n calls returns received g) (hw : g.workers i = .holding b) :
    Tracks n calls returns received (g.send i b) := by
  obtain ⟨launched, started, called, answered, sent, held, own⟩ := h
  refine ⟨launched, ?_, called.congr ?_, answered.congr ?_, ?_, ?_, ?_⟩
  · simp only [Gather.send, setWorker, Function.update_apply]
    grind [Worker.Called]
  · simp only [Gather.send, setWorker, Function.update_apply]
    grind [Worker.Called]
  · simp only [Gather.send, setWorker, Function.update_apply]
    grind [Worker.Answered]
  · simp only [Gather.send, ← List.append_assoc, List.map_append]
    rw [← List.map_append]
    refine sent.snoc ?_ ?_ <;> simp only [setWorker, Function.update_apply] <;> grind
  · simp only [Gather.send, setWorker, Function.update_apply]
    grind
  · intro m hm
    simp only [Gather.send, ← List.append_assoc] at hm
    rcases List.mem_append.mp hm with hm | hm
    · exact own m hm
    · exact List.mem_singleton.mp hm ▸ held i b hw

theorem Tracks.receive (h : Tracks n calls returns received g) {m : ℕ × β} {rest : List (ℕ × β)}
    (hch : g.channel = m :: rest) :
    Tracks n calls returns (received ++ [m]) { g with channel := rest } := by
  have same : received ++ [m] ++ rest = received ++ g.channel := by simp [hch]
  exact { h with
    sent := by simpa only [same] using h.sent
    own := by simpa only [same] using h.own }

theorem Tracks.below (h : Tracks n calls returns received g) (hi : (g.workers i).Called) : i < n :=
  (h.started i hi).trans_le h.launched

theorem Tracks.sent_below (h : Tracks n calls returns received g) (hw : g.workers i = .sent) :
    i < n :=
  h.below (by simp [hw, Worker.Called])

/-- The channel has room for a value that is about to be sent. -/
theorem Tracks.room (h : Tracks n calls returns received g) (hw : g.workers i = .holding b) :
    g.channel.length < n := by
  have hi : i < n := h.below (by simp [hw, Worker.Called])
  have := h.sent.length_lt (fun j => h.sent_below) hi (by simp [hw])
  simp only [List.length_map, List.length_append] at this
  omega

/-- At most `n` values are sent. -/
theorem Tracks.length_sent_le (h : Tracks n calls returns received g) :
    received.length + g.channel.length ≤ n := by
  simpa using h.sent.length_le fun j => h.sent_below

/-- When all have sent and the channel is empty, `n` values were received. -/
theorem Tracks.length_received (h : Tracks n calls returns received g)
    (all : ∀ i < n, g.workers i = .sent) (empty : g.channel = []) : received.length = n := by
  have sent := h.sent
  rw [empty, List.append_nil] at sent
  simpa using (sent.perm_range fun i => ⟨h.sent_below, all i⟩).length_eq

/-- What is still in the channel was not received at that position. -/
theorem Tracks.unreceived (h : Tracks n calls returns received g) (hm : (i, b) ∈ g.channel) :
    i ∉ received.map Prod.fst := by
  have nodup := h.sent.nodup
  rw [List.map_append, List.nodup_append] at nodup
  intro hi
  exact nodup.2.2 i hi i (List.mem_map.mpr ⟨_, hm, rfl⟩) rfl

/-- Once `n` values were received, every call was made once and returned once, and what was received
is what was returned. -/
theorem Tracks.complete (h : Tracks n calls returns received g) (length : received.length = n) :
    calls.Perm (List.range n) ∧ (returns.map Prod.fst).Perm (List.range n) ∧
      (received.map Prod.fst).Perm (List.range n) ∧ ∀ m, m ∈ received ↔ m ∈ returns := by
  have empty : g.channel = [] := by
    have := h.length_sent_le
    exact List.eq_nil_of_length_eq_zero (by omega)
  have sent := h.sent
  rw [empty, List.append_nil] at sent
  have all := sent.all (fun j => h.sent_below) (by rw [List.length_map, length])
  have allCalled : ∀ j, (g.workers j).Called ↔ j < n := by
    refine fun j => ⟨h.below, fun hj => ?_⟩
    simp [(all j).mpr hj, Worker.Called]
  have allAnswered : ∀ j, (g.workers j).Answered ↔ j < n := by
    refine fun j => ⟨fun hj => h.below hj.called, fun hj => ?_⟩
    simp [(all j).mpr hj, Worker.Answered]
  refine ⟨h.called.perm_range allCalled, h.answered.perm_range allAnswered, sent.perm_range all,
    fun m => ?_⟩
  constructor
  · intro hm
    exact h.own m (List.mem_append_left _ hm)
  · intro hm
    -- The position of `m` was received with some value, and it was returned with one value only.
    have position : m.1 ∈ received.map Prod.fst := by
      rw [sent.mem, all, ← allAnswered, ← h.answered.mem]
      exact List.mem_map.mpr ⟨m, hm, rfl⟩
    obtain ⟨m', hm', hpos⟩ := List.mem_map.mp position
    have returned : m' ∈ returns := h.own m' (List.mem_append_left _ hm')
    rwa [← List.inj_on_of_nodup_map h.answered.nodup returned hm hpos]

end Tracks

end Gather

end Daedalus.Foundation
