import Daedalus.Foundation.Gather
import Daedalus.Orchestrator.Safety

/-!
# Waiting for many results

`ResultCollector.WaitForAll`. One goroutine per task ID calls `WaitFor` and sends what it returned
to a buffered channel; `WaitForAll` receives as many values as there are IDs and keeps them in a map
by ID. The collector is the one of `Collector`: messages reach it at any time, and other calls may
use it too.
-/
namespace Daedalus.Orchestrator.WaitForAll

open A2A Foundation

/-- What a goroutine sends. `WaitFor` returns a result or an error. -/
structure Pair where
  id : String
  result : Except GoError TaskResult

/-- In its call a goroutine keeps the number of the call. -/
structure State where
  collector : Collector := .new
  gather : Gather ℕ Pair := .new
  out : String → Option TaskResult := fun _ => none
  firstErr : Option GoError := none
  received : ℕ := 0
  returned : Bool := false

inductive Act where
  | launch
  /-- A goroutine enters `WaitFor`. -/
  | waitFor (i : ℕ)
  /-- Its `WaitFor` receives from the waiter channel. -/
  | wake (i : ℕ)
  /-- Its `WaitFor` has returned. -/
  | returns (i : ℕ)
  | send (i : ℕ)
  /-- `WaitForAll` receives a pair. -/
  | receive
  | ret
  /-- Anything else that happens to the collector. -/
  | collector (a : Orchestrator.Act)

/-- Everything that the goroutines of the call do. -/
def Act.own : Act → Bool
  | .collector _ => false
  | _ => true

/-- The body of the receiving loop. -/
def State.take (s : State) (p : Pair) : State :=
  match p.result with
  | .error err => { s with firstErr := if s.firstErr = none then some err else s.firstErr }
  | .ok r => { s with out := Function.update s.out p.id (some r) }

/-- A state by the part that `take` does not touch. -/
def State.receive (s : State) (rest : List (ℕ × Pair)) : State :=
  { s with gather := { s.gather with channel := rest }, received := s.received + 1 }

def step (taskIDs : List String) (s : State) : Act → Option State
  | .launch =>
    if s.gather.launched < taskIDs.length then some { s with gather := s.gather.launch } else none
  | .waitFor i =>
    match s.gather.workers i, taskIDs[i]? with
    | .pending, some id =>
      if i < s.gather.launched then some
        { s with
          collector := s.collector.waitFor id
          gather := s.gather.setWorker i (.calling s.collector.next) }
      else none
    | _, _ => none
  | .wake i =>
    match s.gather.workers i with
    | .calling c =>
      (Orchestrator.step s.collector (.receive c)).map fun collector => { s with collector }
    | _ => none
  | .returns i =>
    match s.gather.workers i, taskIDs[i]? with
    | .calling c, some id =>
      match s.collector.calls c with
      | some ⟨_, .returned result⟩ => some
        { s with gather := s.gather.setWorker i (.holding ⟨id, result⟩) }
      | _ => none
    | _, _ => none
  | .send i =>
    match s.gather.workers i with
    | .holding p =>
      if s.gather.channel.length < taskIDs.length then
        some { s with gather := s.gather.send i p }
      else none
    | _ => none
  | .receive =>
    match s.gather.channel with
    | m :: rest =>
      if s.gather.launched = taskIDs.length ∧ s.received < taskIDs.length then
        some ((s.receive rest).take m.2)
      else none
    | [] => none
  | .ret =>
    if s.gather.launched = taskIDs.length ∧ s.received = taskIDs.length ∧ s.returned = false then
      some { s with returned := true }
    else none
  | .collector a => (Orchestrator.step s.collector a).map fun collector => { s with collector }

/-- What a step can do. -/
inductive Step (taskIDs : List String) (s : State) : Act → State → Prop
  | launch (more : s.gather.launched < taskIDs.length) :
      Step taskIDs s .launch { s with gather := s.gather.launch }
  | waitFor {i : ℕ} {id : String} (hw : s.gather.workers i = .pending) (hid : taskIDs[i]? = some id)
      (hi : i < s.gather.launched) :
      Step taskIDs s (.waitFor i)
        { s with
          collector := s.collector.waitFor id
          gather := s.gather.setWorker i (.calling s.collector.next) }
  | wake {i c : ℕ} {collector : Collector} (hw : s.gather.workers i = .calling c)
      (hs : Orchestrator.step s.collector (.receive c) = some collector) :
      Step taskIDs s (.wake i) { s with collector }
  | returns {i c : ℕ} {id id' : String} {result : Except GoError TaskResult}
      (hw : s.gather.workers i = .calling c) (hid : taskIDs[i]? = some id)
      (hcall : s.collector.calls c = some ⟨id', .returned result⟩) :
      Step taskIDs s (.returns i)
        { s with gather := s.gather.setWorker i (.holding ⟨id, result⟩) }
  | send {i : ℕ} {p : Pair} (hw : s.gather.workers i = .holding p)
      (room : s.gather.channel.length < taskIDs.length) :
      Step taskIDs s (.send i) { s with gather := s.gather.send i p }
  | receive {m : ℕ × Pair} {rest : List (ℕ × Pair)} (hch : s.gather.channel = m :: rest)
      (all : s.gather.launched = taskIDs.length) (more : s.received < taskIDs.length) :
      Step taskIDs s .receive ((s.receive rest).take m.2)
  | ret (all : s.gather.launched = taskIDs.length) (received : s.received = taskIDs.length)
      (live : s.returned = false) : Step taskIDs s .ret { s with returned := true }
  | collector {a : Orchestrator.Act} {collector : Collector}
      (hs : Orchestrator.step s.collector a = some collector) :
      Step taskIDs s (.collector a) { s with collector }

section Steps

variable {taskIDs : List String} {s t : State} {a : Act}

theorem step_cases (h : step taskIDs s a = some t) : Step taskIDs s a t := by
  cases a with
  | launch =>
    simp only [step, Option.ite_none_right_eq_some, Option.some.injEq] at h
    obtain ⟨more, rfl⟩ := h
    exact .launch more
  | waitFor i =>
    simp only [step] at h
    split at h
    · rename_i id hw hid
      split_ifs at h with hi
      cases h
      exact .waitFor hw hid hi
    · cases h
  | wake i =>
    simp only [step] at h
    split at h
    · rename_i c hw
      obtain ⟨collector, hs, rfl⟩ := Option.map_eq_some_iff.mp h
      exact .wake hw hs
    · cases h
  | returns i =>
    simp only [step] at h
    split at h
    · rename_i c id hw hid
      split at h
      · rename_i id' result hcall
        cases h
        exact .returns hw hid hcall
      · cases h
    · cases h
  | send i =>
    simp only [step] at h
    split at h
    · rename_i p hw
      split_ifs at h with room
      cases h
      exact .send hw room
    · cases h
  | receive =>
    simp only [step] at h
    split at h
    · rename_i m rest hch
      split_ifs at h with hif
      cases h
      exact .receive hch hif.1 hif.2
    · cases h
  | ret =>
    simp only [step, Option.ite_none_right_eq_some, Option.some.injEq] at h
    obtain ⟨⟨all, received, live⟩, rfl⟩ := h
    exact .ret all received live
  | collector a =>
    obtain ⟨collector, hs, rfl⟩ := Option.map_eq_some_iff.mp h
    exact .collector hs

theorem Step.enabled (h : Step taskIDs s a t) : step taskIDs s a = some t := by
  cases h with
  | launch more => simp [step, more]
  | waitFor hw hid hi => simp [step, hw, hid, hi]
  | wake hw hs => simp [step, hw, hs]
  | returns hw hid hcall => simp [step, hw, hid, hcall]
  | send hw room => simp [step, hw, room]
  | receive hch all more => simp [step, hch, all, more]
  | ret all received live => simp [step, all, received, live]
  | collector hs => simp [step, hs]

/-- A step moves the collector by one of its own steps, or leaves it alone. -/
theorem collector_step (h : step taskIDs s a = some t) :
    (∃ b, Orchestrator.step s.collector b = some t.collector ∧ ∀ c, a = .collector c → b = c) ∨
      t.collector = s.collector ∧ ∀ c, a ≠ .collector c := by
  cases step_cases h with
  | @waitFor i id hw hid hi => exact .inl ⟨.waitFor id, rfl, by simp⟩
  | @wake i c collector hw hmove => exact .inl ⟨.receive c, hmove, by simp⟩
  | @collector b collector hmove => exact .inl ⟨b, hmove, by simp⟩
  | @receive m rest hch all more =>
    refine .inr ⟨?_, by simp⟩
    unfold State.take
    split <;> rfl
  | _ => exact .inr ⟨rfl, by simp⟩

end Steps

/-! ## Calls without cancellation -/

/-- The call waits or has returned a result. -/
def Undisturbed : Phase → Prop
  | .blocked => True
  | .returned (.ok _) => True
  | _ => False

section Calls

variable {s t : Collector} {a : Orchestrator.Act} {c : ℕ} {id : String} {p : Phase}

theorem undisturbed_step (hi : Orchestrator.Inv s) (hs : Orchestrator.step s a = some t)
    (uncancelled : ∀ c err, a ≠ .ctxDone c err) (hc : s.calls c = some ⟨id, p⟩)
    (hp : Undisturbed p) : ∃ p, t.calls c = some ⟨id, p⟩ ∧ Undisturbed p := by
  obtain ⟨id', -, rfl⟩ | ⟨c', id', r, -, hcall, -, rfl⟩ | ⟨c', id', err, rfl, -, -⟩ |
    ⟨c', id', err, -, hcall, rfl⟩ | ⟨_, tr, -, -, rfl⟩ | ⟨_, _, -, -, -, rfl⟩ | ⟨tr, -, -, rfl⟩ |
    ⟨rfl, -⟩ := Orchestrator.step_cases hs
  · have hne := hi.ne_next hc
    unfold Collector.waitFor
    split <;> exact ⟨p, by simp [hne, hc], hp⟩
  · by_cases e : c = c'
    · subst e
      rw [hc] at hcall
      cases hcall
      exact ⟨.returned (.ok r), by simp [Collector.setPhase], trivial⟩
    · exact ⟨p, by simp [Collector.setPhase, e, hc], hp⟩
  · exact absurd rfl (uncancelled c' err)
  · have hne : c ≠ c' := by
      rintro rfl
      rw [hc] at hcall
      cases hcall
      exact hp
    exact ⟨p, by simp [Collector.setPhase, Collector.removeWaiter, hne, hc], hp⟩
  all_goals exact ⟨p, hc, hp⟩

/-- A call does not block again. -/
theorem blocked_of_step (hi : Orchestrator.Inv s) (hs : Orchestrator.step s a = some t)
    (hc : s.calls c = some ⟨id, p⟩) (ht : t.calls c = some ⟨id, .blocked⟩) : p = .blocked := by
  obtain ⟨id', -, rfl⟩ | ⟨c', id', r, -, hcall, -, rfl⟩ | ⟨c', id', err, -, hcall, rfl⟩ |
    ⟨c', id', err, -, hcall, rfl⟩ | ⟨_, tr, -, -, rfl⟩ | ⟨_, _, -, -, -, rfl⟩ | ⟨tr, -, -, rfl⟩ |
    ⟨rfl, -⟩ := Orchestrator.step_cases hs
  · have hne := hi.ne_next hc
    unfold Collector.waitFor at ht
    split at ht <;> simp_all
  · by_cases e : c = c' <;> simp_all [Collector.setPhase]
  · by_cases e : c = c' <;> simp_all [Collector.setPhase]
  · by_cases e : c = c' <;> simp_all [Collector.setPhase, Collector.removeWaiter]
  · have same : (s.storeAndNotify tr).calls = s.calls := rfl
    simp_all
  · simp_all
  · have same : ({ s with checked := s.checked.erase tr }.storeAndNotify tr).calls = s.calls := rfl
    simp_all
  · simp_all

/-- A new call is not disturbed. -/
theorem waitFor_undisturbed (s : Collector) (id : String) :
    ∃ p, (s.waitFor id).calls s.next = some ⟨id, p⟩ ∧ Undisturbed p := by
  unfold Collector.waitFor
  cases hr : s.results id with
  | some r => exact ⟨.returned (.ok r), by simp, trivial⟩
  | none => exact ⟨.blocked, by simp, trivial⟩

end Calls

/-! ## The invariant -/

/-- `P` is true of everything that is built from a message. The goroutines have called `WaitFor` for
`calls`, which returned `returns`; the loop has taken `received`. -/
structure Inv (taskIDs : List String) (P : TaskResult → Prop) (calls : List ℕ)
    (returns received : List (ℕ × Pair)) (s : State) : Prop where
  collector : Orchestrator.Inv s.collector
  holds : Holds P s.collector
  tracks : s.gather.Tracks taskIDs.length calls returns received
  calling : ∀ i c, s.gather.workers i = .calling c →
    ∃ id p, taskIDs[i]? = some id ∧ s.collector.calls c = some ⟨id, p⟩ ∧ Undisturbed p
  pairs : ∀ i p, (i, p) ∈ returns →
    ∃ id r, taskIDs[i]? = some id ∧ p = ⟨id, .ok r⟩ ∧ r.taskID = id ∧ P r
  count : s.received = received.length
  kept : ∀ m ∈ received, (s.out m.2.id).isSome
  out : ∀ id r, s.out id = some r → id ∈ taskIDs ∧ r.taskID = id ∧ P r
  firstErr : s.firstErr = none
  returned : s.returned = true → s.received = taskIDs.length

/-- The action is not a cancellation, and `P` is true of what it builds. -/
def Act.Obeys (P : TaskResult → Prop) : Act → Prop
  | .collector a => (∀ c err, a ≠ .ctxDone c err) ∧ ∀ r, a.builds = some r → P r
  | _ => True

section Invariant

variable {taskIDs : List String} {P : TaskResult → Prop} {calls : List ℕ}
  {returns received : List (ℕ × Pair)} {s t : State} {a : Act}

theorem Inv.start (taskIDs : List String) (P : TaskResult → Prop) : Inv taskIDs P [] [] [] {} where
  collector := .new
  holds := .new
  tracks := .new _
  calling := by simp [Gather.new]
  pairs := by simp
  count := rfl
  kept := by simp
  out := by simp
  firstErr := rfl
  returned := by simp

/-- The collector moves. -/
theorem Inv.move (h : Inv taskIDs P calls returns received s) {a : Orchestrator.Act}
    (obeys : (Act.collector a).Obeys P) {collector : Collector}
    (hs : Orchestrator.step s.collector a = some collector) :
    Inv taskIDs P calls returns received { s with collector } :=
  { h with
    collector := h.collector.step hs
    holds := h.holds.step h.collector obeys.2 hs
    calling := by
      intro i c hw
      obtain ⟨id, p, hid, hcall, hp⟩ := h.calling i c hw
      obtain ⟨p', hcall', hp'⟩ := undisturbed_step h.collector hs obeys.1 hcall hp
      exact ⟨id, p', hid, hcall', hp'⟩ }

/-- The loop takes a result that is named after its task. -/
theorem Inv.take (h : Inv taskIDs P calls returns received s) {m : ℕ × Pair}
    {rest : List (ℕ × Pair)} (hch : s.gather.channel = m :: rest)
    (more : s.received < taskIDs.length) :
    Inv taskIDs P calls returns (received ++ [m]) ((s.receive rest).take m.2) := by
  obtain ⟨i, p⟩ := m
  have returned : (i, p) ∈ returns := h.tracks.own _ (by simp [hch])
  obtain ⟨id, r, hid, rfl, hname, hP⟩ := h.pairs i p returned
  refine { h with
    tracks := h.tracks.receive hch
    count := ?_
    kept := ?_
    out := ?_
    returned := ?_ }
  · simp [State.take, State.receive, h.count]
  · intro m hm
    simp only [State.take, State.receive, Function.update_apply]
    split_ifs with e
    · rfl
    · rcases List.mem_append.mp hm with hm | hm
      · exact h.kept m hm
      · obtain rfl := List.mem_singleton.mp hm
        exact absurd rfl e
  · intro id' r' hout
    simp only [State.take, State.receive, Function.update_apply] at hout
    split_ifs at hout with e
    · cases hout
      subst e
      exact ⟨List.mem_of_getElem? hid, hname, hP⟩
    · exact h.out id' r' hout
  · intro hreturned
    exact absurd (h.returned hreturned) more.ne

theorem Inv.step (h : Inv taskIDs P calls returns received s) (obeys : a.Obeys P)
    (hs : step taskIDs s a = some t) :
    ∃ calls returns received, Inv taskIDs P calls returns received t := by
  have quiet : ∀ a : Orchestrator.Act, (∀ c err, a ≠ .ctxDone c err) → a.builds = none →
      (Act.collector a).Obeys P := fun a uncancelled none => ⟨uncancelled, by simp [none]⟩
  cases step_cases hs with
  | launch more => exact ⟨calls, returns, received, { h with tracks := h.tracks.launch more }⟩
  | @waitFor i id hw hid hi =>
    have moved := h.move (quiet (.waitFor id) (by simp) rfl) rfl
    refine ⟨calls ++ [i], returns, received, { moved with
      tracks := h.tracks.call hi hw s.collector.next
      calling := ?_ }⟩
    intro j c hj
    rw [Gather.workers_setWorker] at hj
    split_ifs at hj with e
    · cases hj
      subst e
      obtain ⟨p, hcall, hp⟩ := waitFor_undisturbed s.collector id
      exact ⟨id, p, hid, hcall, hp⟩
    · exact moved.calling j c hj
  | @wake i c collector hw hmove =>
    exact ⟨calls, returns, received, h.move (quiet (.receive c) (by simp) rfl) hmove⟩
  | @returns i c id id' result hw hid hcall =>
    obtain ⟨id₀, p, hid₀, hcall₀, hp⟩ := h.calling i c hw
    obtain rfl : id₀ = id := Option.some.inj (hid₀.symm.trans hid)
    have same := hcall₀.symm.trans hcall
    simp only [Option.some.injEq, Call.mk.injEq] at same
    obtain ⟨rfl, rfl⟩ := same
    cases result with
    | error err => exact hp.elim
    | ok r =>
      obtain ⟨hname, hP⟩ := h.holds.returned c _ r hcall
      refine ⟨calls, returns ++ [(i, ⟨id₀, .ok r⟩)], received, { h with
        tracks := h.tracks.ret hw _
        calling := ?_
        pairs := ?_ }⟩
      · intro j c' hj
        rw [Gather.workers_setWorker] at hj
        split_ifs at hj with e
        exact h.calling j c' hj
      · intro j p hmem
        rcases List.mem_append.mp hmem with hmem | hmem
        · exact h.pairs j p hmem
        · simp only [List.mem_singleton, Prod.mk.injEq] at hmem
          obtain ⟨rfl, rfl⟩ := hmem
          exact ⟨id₀, r, hid, rfl, hname, hP⟩
  | @send i p hw room =>
    refine ⟨calls, returns, received, { h with
      tracks := h.tracks.send hw
      calling := ?_ }⟩
    intro j c hj
    simp only [Gather.send, Gather.workers_setWorker] at hj
    split_ifs at hj with e
    exact h.calling j c hj
  | receive hch all more => exact ⟨calls, returns, _, h.take hch more⟩
  | ret all hreceived live =>
    exact ⟨calls, returns, received, { h with returned := fun _ => hreceived }⟩
  | collector hmove => exact ⟨calls, returns, received, h.move obeys hmove⟩

end Invariant

/-! ## A call returns -/

/-- The `WaitFor` call is in its `select`. -/
def blocks (collector : Collector) (c : ℕ) : Bool :=
  match collector.calls c with
  | some ⟨_, .blocked⟩ => true
  | _ => false

theorem blocks_iff {collector : Collector} {c : ℕ} :
    blocks collector c = true ↔ ∃ id, collector.calls c = some ⟨id, .blocked⟩ := by
  unfold blocks
  split
  · rename_i id hcall
    simp [hcall]
  · rename_i other
    simpa using other

theorem blocks_receive {s t : Collector} {c : ℕ} (h : Orchestrator.step s (.receive c) = some t) :
    blocks s c = true ∧ blocks t c = false := by
  simp only [Orchestrator.step] at h
  split at h
  · rename_i id r hcall hchan
    cases h
    refine ⟨blocks_iff.mpr ⟨id, hcall⟩, ?_⟩
    simp [blocks, Collector.setPhase]
  · cases h

/-- How many steps a goroutine has left up to its send, where the pair in the channel counts. -/
def weight (collector : Collector) : Worker ℕ Pair → ℕ
  | .pending => 5
  | .calling c => if blocks collector c then 4 else 3
  | .holding _ => 2
  | .sent => 0

/-- How many steps the goroutines of the call have left at most. -/
def State.left (taskIDs : List String) (s : State) : ℕ :=
  (taskIDs.length - s.gather.launched) +
    remaining taskIDs.length (weight s.collector) s.gather.workers + s.gather.channel.length +
    (!s.returned).toNat

section Returns

variable {taskIDs : List String} {P : TaskResult → Prop} {calls : List ℕ}
  {returns received : List (ℕ × Pair)} {s t : State} {a : Act}

theorem weight_calling_le (collector : Collector) (c : ℕ) : weight collector (.calling c) ≤ 4 := by
  simp only [weight]
  split_ifs <;> omega

/-- Whatever happens to the collector, no goroutine is thrown back. -/
theorem weight_move_le (h : Inv taskIDs P calls returns received s) {a : Orchestrator.Act}
    {collector : Collector} (hs : Orchestrator.step s.collector a = some collector) (i : ℕ) :
    weight collector (s.gather.workers i) ≤ weight s.collector (s.gather.workers i) := by
  cases hw : s.gather.workers i with
  | calling c =>
    obtain ⟨id, p, -, hcall, -⟩ := h.calling i c hw
    obtain ⟨p', hcall'⟩ := calls_kept h.collector hs hcall
    have before : blocks collector c = true → blocks s.collector c = true := by
      intro hblocks
      obtain ⟨id', hblocked⟩ := blocks_iff.mp hblocks
      rw [hcall'] at hblocked
      cases hblocked
      obtain rfl := blocked_of_step h.collector hs hcall hcall'
      exact blocks_iff.mpr ⟨id, hcall⟩
    simp only [weight]
    split_ifs with h₁ h₂
    · omega
    · exact absurd (before h₁) h₂
    · omega
    · omega
  | _ => rfl

theorem remaining_move_le (h : Inv taskIDs P calls returns received s) {a : Orchestrator.Act}
    {collector : Collector} (hs : Orchestrator.step s.collector a = some collector) :
    remaining taskIDs.length (weight collector) s.gather.workers ≤
      remaining taskIDs.length (weight s.collector) s.gather.workers :=
  Finset.sum_le_sum fun i _ => weight_move_le h hs i

/-- A step of the call lowers the bound, and nothing else raises it. -/
theorem left_step (h : Inv taskIDs P calls returns received s) (hs : step taskIDs s a = some t) :
    t.left taskIDs + a.own.toNat ≤ s.left taskIDs := by
  have below : ∀ i, (s.gather.workers i).Called → i < taskIDs.length := fun i => h.tracks.below
  cases step_cases hs with
  | launch more =>
    simp only [State.left, Gather.launch, Act.own, Bool.toNat_true]
    omega
  | @waitFor i id hw hid hi =>
    have moved := remaining_move_le h (a := .waitFor id) rfl
    have updated := remaining_update (hi.trans_le h.tracks.launched)
      (weight (s.collector.waitFor id)) s.gather.workers (.calling s.collector.next)
    have := weight_calling_le (s.collector.waitFor id) s.collector.next
    simp only [hw, weight] at updated this
    simp only [State.left, Gather.setWorker, Act.own, Bool.toNat_true]
    omega
  | @wake i c collector hw hmove =>
    -- The goroutine itself leaves its `select`; for the others nothing changes.
    have lower : remaining taskIDs.length (weight collector) s.gather.workers <
        remaining taskIDs.length (weight s.collector) s.gather.workers := by
      refine Finset.sum_lt_sum (fun j _ => weight_move_le h hmove j) ⟨i, ?_, ?_⟩
      · exact Finset.mem_range.mpr (below i (by simp [hw, Worker.Called]))
      · obtain ⟨blocked, unblocked⟩ := blocks_receive hmove
        simp [hw, weight, blocked, unblocked]
    simp only [State.left, Act.own, Bool.toNat_true]
    omega
  | @returns i c id id' result hw hid hcall =>
    have updated := remaining_update (below i (by simp [hw, Worker.Called])) (weight s.collector)
      s.gather.workers (.holding ⟨id, result⟩)
    simp only [hw, weight] at updated
    simp only [State.left, Gather.setWorker, Act.own, Bool.toNat_true]
    split_ifs at updated <;> omega
  | @send i p hw room =>
    have updated := remaining_update (below i (by simp [hw, Worker.Called])) (weight s.collector)
      s.gather.workers .sent
    simp only [hw, weight] at updated
    simp only [State.left, Gather.send, Gather.setWorker, Act.own, Bool.toNat_true,
      List.length_append,
      List.length_singleton]
    omega
  | @receive m rest hch all more =>
    have same : ((s.receive rest).take m.2).left taskIDs = (s.receive rest).left taskIDs := by
      unfold State.take
      split <;> rfl
    rw [same]
    simp only [State.left, State.receive, hch, Act.own, Bool.toNat_true, List.length_cons]
    omega
  | ret all hreceived live => simp [State.left, live, Act.own]
  | collector hmove =>
    have moved := remaining_move_le h hmove
    simp only [State.left, Act.own, Bool.toNat_false]
    omega

/-- A goroutine that has not sent can take a step, unless it waits for a task without a result. -/
theorem worker_proceeds (h : Inv taskIDs P calls returns received s)
    (all : s.gather.launched = taskIDs.length) {i : ℕ} (hi : i < taskIDs.length)
    (hw : s.gather.workers i ≠ .sent) :
    (∃ a t, a.own = true ∧ step taskIDs s a = some t) ∨
      ∃ id ∈ taskIDs, s.collector.results id = none := by
  have hid : taskIDs[i]? = some taskIDs[i] := List.getElem?_eq_getElem hi
  cases hstate : s.gather.workers i with
  | pending => exact .inl ⟨.waitFor i, _, rfl, (Step.waitFor hstate hid (by omega)).enabled⟩
  | calling c =>
    obtain ⟨id, p, hid', hcall, hp⟩ := h.calling i c hstate
    cases p with
    | blocked =>
      by_cases hr : s.collector.results id = none
      · exact .inr ⟨id, List.mem_of_getElem? hid', hr⟩
      · obtain ⟨collector, hmove⟩ := h.collector.released hcall hr
        exact .inl ⟨.wake i, _, rfl, (Step.wake hstate hmove).enabled⟩
    | canceled err => exact hp.elim
    | returned result => exact .inl ⟨.returns i, _, rfl, (Step.returns hstate hid hcall).enabled⟩
  | holding p => exact .inl ⟨.send i, _, rfl, (Step.send hstate (h.tracks.room hstate)).enabled⟩
  | sent => exact absurd hstate hw

/-- Until the call has returned it can take a step, unless a task has no result yet. -/
theorem progress (h : Inv taskIDs P calls returns received s) (live : s.returned = false) :
    (∃ a t, a.own = true ∧ step taskIDs s a = some t) ∨
      ∃ id ∈ taskIDs, s.collector.results id = none := by
  rcases h.tracks.launched.lt_or_eq with more | all
  · exact .inl ⟨.launch, _, rfl, (Step.launch more).enabled⟩
  cases hch : s.gather.channel with
  | cons m rest =>
    have more : s.received < taskIDs.length := by
      have := h.tracks.length_sent_le
      rw [hch, List.length_cons] at this
      have := h.count
      omega
    exact .inl ⟨.receive, _, rfl, (Step.receive hch all more).enabled⟩
  | nil =>
    by_cases hsent : ∀ i < taskIDs.length, s.gather.workers i = .sent
    · have complete := h.tracks.length_received hsent hch
      exact .inl ⟨.ret, _, rfl, (Step.ret all (h.count.trans complete) live).enabled⟩
    · simp only [not_forall] at hsent
      obtain ⟨i, hi, hw⟩ := hsent
      exact worker_proceeds h all hi hw

end Returns

/-- The result was built from a message that reached the collector. -/
def Built (acts : List Act) (r : TaskResult) : Prop :=
  ∃ a, .collector a ∈ acts ∧ a.builds = some r

/-- What holds of a call that is not cancelled, in a state that it reaches by the actions `acts`. -/
structure Gathers (taskIDs : List String) (acts : List Act) (s : State) : Prop where
  /-- The call goes on until it has returned, as long as no result is missing, -/
  proceeds : s.returned = false → (∃ a t, a.own = true ∧ step taskIDs s a = some t) ∨
    ∃ id ∈ taskIDs, s.collector.results id = none
  /-- which takes a bounded number of steps. -/
  bounded : acts.countP Act.own ≤ 6 * taskIDs.length + 1
  /-- It returns a result for every ID, built from a message for that ID, -/
  results : s.returned = true →
    s.firstErr = none ∧ ∀ id ∈ taskIDs, ∃ r, s.out id = some r ∧ r.taskID = id ∧ Built acts r
  /-- and none for other IDs. -/
  only : ∀ id, s.out id ≠ none → id ∈ taskIDs

section Gathers

variable {taskIDs : List String} {acts : List Act} {s : State}

theorem obeys_of_mem (uncancelled : ∀ c err, Act.collector (.ctxDone c err) ∉ acts) {a : Act}
    (ha : a ∈ acts) : a.Obeys (Built acts) := by
  cases a with
  | collector a =>
    refine ⟨?_, fun r hr => ⟨a, ha, hr⟩⟩
    rintro c err rfl
    exact uncancelled c err ha
  | _ => trivial

/-- The invariant and the bound hold along every run without a cancellation. -/
theorem reached (h : run (step taskIDs) {} acts = some s)
    (uncancelled : ∀ c err, Act.collector (.ctxDone c err) ∉ acts) :
    (∃ calls returns received, Inv taskIDs (Built acts) calls returns received s) ∧
      acts.countP Act.own + s.left taskIDs ≤ 6 * taskIDs.length + 1 := by
  have meets : Meets (step taskIDs) (fun _ => Act.Obeys (Built acts)) {} acts :=
    .of_forall fun _ => obeys_of_mem uncancelled
  refine meets.history (fun past s =>
    (∃ calls returns received, Inv taskIDs (Built acts) calls returns received s) ∧
      past.countP Act.own + s.left taskIDs ≤ 6 * taskIDs.length + 1) ?_ h
    ⟨⟨[], [], [], .start taskIDs _⟩, ?_⟩
  · rintro past s a t ⟨⟨calls, returns, received, inv⟩, bounded⟩ ok hs
    refine ⟨inv.step ok hs, ?_⟩
    have lower := left_step inv hs
    rw [List.countP_append, List.countP_singleton]
    cases hown : a.own with
    | true =>
      simp only [hown, Bool.toNat_true] at lower
      simp only [if_true]
      omega
    | false =>
      simp only [hown, Bool.toNat_false] at lower
      simp only [Bool.false_eq_true, if_false]
      omega
  · simp [State.left, Gather.new, remaining, weight]
    omega

theorem gathers (h : run (step taskIDs) {} acts = some s)
    (uncancelled : ∀ c err, Act.collector (.ctxDone c err) ∉ acts) : Gathers taskIDs acts s := by
  obtain ⟨⟨calls, returns, received, inv⟩, bounded⟩ := reached h uncancelled
  refine ⟨progress inv, by omega, ?_, ?_⟩
  · intro hreturned
    refine ⟨inv.firstErr, fun id hid => ?_⟩
    obtain ⟨i, hi, rfl⟩ := List.getElem_of_mem hid
    obtain ⟨-, -, keys, -⟩ := inv.tracks.complete (inv.count.symm.trans (inv.returned hreturned))
    -- The pair of this position was received, and carries the ID.
    obtain ⟨m, hm, rfl⟩ := List.mem_map.mp (keys.mem_iff.mpr (List.mem_range.mpr hi))
    obtain ⟨id, r, hid', hp, -⟩ := inv.pairs m.1 m.2 (inv.tracks.own m (List.mem_append_left _ hm))
    obtain rfl : taskIDs[m.1] = id := by simpa [hi] using hid'
    have hkept := inv.kept m hm
    rw [hp] at hkept
    obtain ⟨r', hr'⟩ := Option.isSome_iff_exists.mp hkept
    obtain ⟨-, hname, hbuilt⟩ := inv.out _ r' hr'
    exact ⟨r', hr', hname, hbuilt⟩
  · intro id hid
    obtain ⟨r, hr⟩ := Option.ne_none_iff_exists'.mp hid
    exact (inv.out id r hr).1

end Gathers

end Daedalus.Orchestrator.WaitForAll
