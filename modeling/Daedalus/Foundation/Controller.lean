import Daedalus.Foundation.Store

/-!
# Control loops around a work queue

The objects of a store change at any time. Each change is an event, and some time later an event is
mapped to the keys that depend on what has changed. A key is taken from the queue, the program is
run for it, and the key is put back when the outcome says so. A key that is queued while the program
runs for it is taken again later. Keys may also be queued for no reason.

What such a loop promises is that a key is up to date or will be looked at again. It follows from
facts about single changes and single calls of the program, which `Sound` lists.
-/
namespace Daedalus.Foundation

structure Controller (κ ε Op : Type) (Ans : Op → Type) (σ ρ α : Type) where
  /-- How the store answers what the program asks for a key. -/
  api : κ → Prog.Store Op Ans σ ρ
  program : κ → Prog Op Ans α
  /-- The key is put back. -/
  requeue : α → Bool
  change : σ → ε → σ
  /-- The keys that an event stands for, at the time when it is mapped. -/
  mapped : σ → ε → Finset κ

namespace Controller

variable {κ ε Op : Type} {Ans : Op → Type} {σ ρ α : Type} [DecidableEq κ]

structure State (κ ε Op : Type) (Ans : Op → Type) (σ α : Type) where
  store : σ
  queue : Finset κ
  /-- The events that are still to be mapped, oldest first. -/
  pending : List ε
  running : Option (κ × Prog Op Ans α)

inductive Act (κ ε ρ : Type) where
  | change (e : ε)
  /-- The oldest event is mapped. -/
  | deliver
  /-- The oldest event cannot be mapped, and is gone. -/
  | drop
  | enqueue (key : κ)
  | start (key : κ)
  | call (r : ρ)
  /-- The program has returned. -/
  | finish

def step (m : Controller κ ε Op Ans σ ρ α) (s : State κ ε Op Ans σ α) :
    Act κ ε ρ → Option (State κ ε Op Ans σ α)
  | .change e => some { s with store := m.change s.store e, pending := s.pending ++ [e] }
  | .deliver =>
    match s.pending with
    | [] => none
    | e :: rest => some { s with queue := s.queue ∪ m.mapped s.store e, pending := rest }
  | .drop =>
    match s.pending with
    | [] => none
    | _ :: rest => some { s with pending := rest }
  | .enqueue key => some { s with queue := insert key s.queue }
  | .start key =>
    if key ∈ s.queue ∧ s.running.isNone then
      some { s with queue := s.queue.erase key, running := some (key, m.program key) }
    else none
  | .call r => s.running.bind fun x =>
    (x.2.serve (m.api x.1) s.store r).map fun y =>
      { s with store := y.1, running := some (x.1, y.2) }
  | .finish => s.running.bind fun x =>
    x.2.result.map fun a =>
      { s with
        queue := if m.requeue a then insert x.1 s.queue else s.queue
        running := none }

/-- The changes are `ok`, and every event is mapped. -/
def Regular (ok : σ → ε → Prop) (s : State κ ε Op Ans σ α) : Act κ ε ρ → Prop
  | .change e => ok s.store e
  | .drop => False
  | _ => True

/-- The key will be looked at again: it is queued, or an event that stands for it is on its way. -/
def Due (m : Controller κ ε Op Ans σ ρ α) (s : State κ ε Op Ans σ α) (key : κ) : Prop :=
  key ∈ s.queue ∨ ∃ e ∈ s.pending, key ∈ m.mapped s.store e

/-- What makes the loop work, for changes that are `ok`. `rely key` is what may happen to the store
as far as `key` does not depend on it. -/
structure Sound (m : Controller κ ε Op Ans σ ρ α) (ok : σ → ε → Prop) (current : σ → κ → Prop)
    (rely : κ → σ → σ → Prop) : Prop where
  refl : ∀ key c, rely key c c
  trans : ∀ key c c' c'', rely key c c' → rely key c' c'' → rely key c c''
  stable : ∀ key c c', rely key c c' → current c key → current c' key
  /-- A change that matters to a key is mapped to it. -/
  noticed : ∀ c e key, ok c e → key ∈ m.mapped (m.change c e) e ∨ rely key c (m.change c e)
  /-- A change does not make an earlier event forget a key, unless it stands for the key itself. -/
  remembered : ∀ c e e' key, ok c e → key ∈ m.mapped c e' →
    key ∈ m.mapped (m.change c e) e' ∨ key ∈ m.mapped (m.change c e) e
  /-- The program for a key is no matter of other keys. -/
  apart : ∀ key op c r c' ans, m.api key op c r = some (c', ans) →
    m.mapped c' = m.mapped c ∧ ∀ other, other ≠ key → rely other c c'
  /-- The program brings its key up to date, or asks for it to be put back. -/
  brings : ∀ key c, (m.program key).Keeps (m.api key) (rely key) (fun _ => True)
    (fun c a => m.requeue a = false → current c key) c

/-- The program that runs for the key will bring it up to date. -/
def Brings (m : Controller κ ε Op Ans σ ρ α) (current : σ → κ → Prop) (rely : κ → σ → σ → Prop)
    (s : State κ ε Op Ans σ α) (key : κ) : Prop :=
  ∃ q, s.running = some (key, q) ∧ q.Keeps (m.api key) (rely key) (fun _ => True)
    (fun c a => m.requeue a = false → current c key) s.store

/-- A key is due, or the program runs for it and will bring it up to date, or it is up to date. -/
def Inv (m : Controller κ ε Op Ans σ ρ α) (current : σ → κ → Prop) (rely : κ → σ → σ → Prop)
    (s : State κ ε Op Ans σ α) : Prop :=
  ∀ key, Due m s key ∨ Brings m current rely s key ∨
    (current s.store key ∧ ∀ q, s.running ≠ some (key, q))

section Runs

variable {m : Controller κ ε Op Ans σ ρ α} {ok : σ → ε → Prop} {current : σ → κ → Prop}
  {rely : κ → σ → σ → Prop} {s t : State κ ε Op Ans σ α}

omit [DecidableEq κ] in
theorem Inv.change (sound : Sound m ok current rely) (h : Inv m current rely s) {e : ε}
    (he : ok s.store e) :
    Inv m current rely { s with store := m.change s.store e, pending := s.pending ++ [e] } := by
  intro key
  have on_its_way (hmap : key ∈ m.mapped (m.change s.store e) e) :
      Due m { s with store := m.change s.store e, pending := s.pending ++ [e] } key :=
    .inr ⟨e, by simp, hmap⟩
  obtain hmap | untouched := sound.noticed s.store e key he
  · exact .inl (on_its_way hmap)
  obtain (queued | ⟨e', he', hmap⟩) | ⟨q, hq, keeps⟩ | ⟨hcurrent, idle⟩ := h key
  · exact .inl (.inl queued)
  · obtain kept | taken := sound.remembered s.store e e' key he hmap
    · exact .inl (.inr ⟨e', List.mem_append_left [e] he', kept⟩)
    · exact .inl (on_its_way taken)
  · refine .inr (.inl ⟨q, hq, ?_⟩)
    cases hres : q.result with
    | none =>
      refine keeps.interfere hres ?_
      intro c hc
      exact sound.trans key _ _ c untouched hc
    | some a =>
      -- the change does not touch what the program has achieved
      obtain rfl := Prog.result_eq_some.mp hres
      refine ⟨trivial, ?_⟩
      intro ha
      exact sound.stable key _ _ untouched (keeps.2 ha)
  · exact .inr (.inr ⟨sound.stable key _ _ untouched hcurrent, idle⟩)

theorem Inv.deliver {e : ε} {rest : List ε} (h : Inv m current rely s)
    (hpending : s.pending = e :: rest) :
    Inv m current rely { s with queue := s.queue ∪ m.mapped s.store e, pending := rest } := by
  intro key
  obtain (queued | ⟨e', he', hmap⟩) | brings := h key
  · exact .inl (.inl (Finset.mem_union_left _ queued))
  · rw [hpending, List.mem_cons] at he'
    obtain rfl | he' := he'
    · exact .inl (.inl (Finset.mem_union_right _ hmap))
    · exact .inl (.inr ⟨e', he', hmap⟩)
  · exact .inr brings

theorem Inv.enqueue (h : Inv m current rely s) (key : κ) :
    Inv m current rely { s with queue := insert key s.queue } := by
  intro key'
  obtain (queued | later) | brings := h key'
  · exact .inl (.inl (Finset.mem_insert_of_mem queued))
  · exact .inl (.inr later)
  · exact .inr brings

theorem Inv.start (sound : Sound m ok current rely) (h : Inv m current rely s) (key : κ)
    (idle : s.running = none) :
    Inv m current rely
      { s with queue := s.queue.erase key, running := some (key, m.program key) } := by
  intro key'
  by_cases hkey : key' = key
  · subst hkey
    exact .inr (.inl ⟨m.program key', rfl, sound.brings key' s.store⟩)
  · obtain (queued | later) | ⟨q, hq, -⟩ | ⟨hcurrent, -⟩ := h key'
    · exact .inl (.inl (Finset.mem_erase.mpr ⟨hkey, queued⟩))
    · exact .inl (.inr later)
    · rw [idle] at hq
      cases hq
    · refine .inr (.inr ⟨hcurrent, ?_⟩)
      rintro q ⟨⟩
      exact hkey rfl

omit [DecidableEq κ] in
theorem Inv.call (sound : Sound m ok current rely) {key : κ} {p q : Prog Op Ans α} {r : ρ} {c : σ}
    (h : Inv m current rely s) (hrunning : s.running = some (key, p))
    (hserve : p.serve (m.api key) s.store r = some (c, q)) :
    Inv m current rely { s with store := c, running := some (key, q) } := by
  obtain ⟨op, ans, hapi⟩ : ∃ op ans, m.api key op s.store r = some (c, ans) := by
    cases p with
    | ret a => cases hserve
    | call op next =>
      obtain ⟨⟨c', ans⟩, hc', e⟩ := Option.map_eq_some_iff.mp hserve
      cases e
      exact ⟨op, ans, hc'⟩
  obtain ⟨same, others⟩ := sound.apart key op s.store r c ans hapi
  intro key'
  obtain (queued | ⟨e, he, hmap⟩) | ⟨q', hq', keeps⟩ | ⟨hcurrent, idle⟩ := h key'
  · exact .inl (.inl queued)
  · refine .inl (.inr ⟨e, he, ?_⟩)
    rw [same]
    exact hmap
  · rw [hrunning] at hq'
    cases hq'
    exact .inr (.inl ⟨q, rfl, keeps.serve (sound.refl key s.store) hserve⟩)
  · have hkey : key' ≠ key := by
      rintro rfl
      exact idle p hrunning
    refine .inr (.inr ⟨sound.stable key' _ _ (others key' hkey) hcurrent, ?_⟩)
    rintro q' ⟨⟩
    exact hkey rfl

theorem Inv.finish {key : κ} {a : α} (h : Inv m current rely s)
    (hrunning : s.running = some (key, .ret a)) :
    Inv m current rely
      { s with queue := if m.requeue a then insert key s.queue else s.queue, running := none } := by
  have queue_le : s.queue ⊆ if m.requeue a then insert key s.queue else s.queue := by
    split_ifs
    · exact Finset.subset_insert key s.queue
    · exact subset_rfl
  intro key'
  obtain (queued | later) | ⟨q, hq, keeps⟩ | ⟨hcurrent, -⟩ := h key'
  · exact .inl (.inl (queue_le queued))
  · exact .inl (.inr later)
  · rw [hrunning] at hq
    cases hq
    cases hrequeue : m.requeue a with
    | true => exact .inl (.inl (Finset.mem_insert_self key s.queue))
    | false => exact .inr (.inr ⟨keeps.2 hrequeue, by simp⟩)
  · exact .inr (.inr ⟨hcurrent, by simp⟩)

theorem Inv.step (sound : Sound m ok current rely) {act : Act κ ε ρ} (h : Inv m current rely s)
    (regular : Regular ok s act) (hstep : m.step s act = some t) : Inv m current rely t := by
  cases act with
  | change e =>
    cases hstep
    exact h.change sound regular
  | deliver =>
    cases hpending : s.pending with
    | nil => simp [Controller.step, hpending] at hstep
    | cons e rest =>
      simp only [Controller.step, hpending, Option.some.injEq] at hstep
      exact hstep ▸ h.deliver hpending
  | drop => exact regular.elim
  | enqueue key =>
    cases hstep
    exact h.enqueue key
  | start key =>
    simp only [Controller.step] at hstep
    split_ifs at hstep with enabled
    cases hstep
    exact h.start sound key (Option.isNone_iff_eq_none.mp enabled.2)
  | call r =>
    simp only [Controller.step, Option.bind_eq_some_iff, Option.map_eq_some_iff] at hstep
    obtain ⟨⟨key, p⟩, hrunning, ⟨c, q⟩, hserve, rfl⟩ := hstep
    exact h.call sound hrunning hserve
  | finish =>
    simp only [Controller.step, Option.bind_eq_some_iff, Option.map_eq_some_iff] at hstep
    obtain ⟨⟨key, p⟩, hrunning, a, hres, rfl⟩ := hstep
    obtain rfl := Prog.result_eq_some.mp hres
    exact h.finish hrunning

theorem regular_of_mapped {acts : List (Act κ ε ρ)} (h : ∀ act ∈ acts, act ≠ .drop) :
    Meets m.step (Regular fun _ _ => True) s acts := by
  refine Meets.of_always fun act hact s => ?_
  cases act with
  | drop => exact h .drop hact rfl
  | _ => trivial

/-- A key that is not up to date is due or being worked on. -/
theorem Sound.current_of_run (sound : Sound m ok current rely) {acts : List (Act κ ε ρ)}
    (queued : ∀ key, key ∈ s.queue ∨ current s.store key) (idle : s.running = none)
    (regular : Meets m.step (Regular ok) s acts) (h : run m.step s acts = some t) {key : κ}
    (settled : ¬ Due m t key) (free : ∀ q, t.running ≠ some (key, q)) : current t.store key := by
  have start : Inv m current rely s := by
    intro key
    obtain hqueue | hcurrent := queued key
    · exact .inl (.inl hqueue)
    · exact .inr (.inr ⟨hcurrent, by simp [idle]⟩)
  have hinv : Inv m current rely t :=
    regular.invariant (Inv m current rely)
      (fun _ _ _ hs hact hstep => hs.step sound hact hstep) h start
  obtain due | ⟨q, hq, -⟩ | ⟨hcurrent, -⟩ := hinv key
  · exact absurd due settled
  · exact absurd hq (free q)
  · exact hcurrent

end Runs

end Controller

end Daedalus.Foundation
