import Daedalus.Foundation.Feed
import Daedalus.Registry.Dynamic

/-!
# Convergence of the dynamic registry

The live content of the bucket is what its writers and the expiry make of it, with values that do
not decode passed over. The map of the registry is a replica that is fed by the watcher: the updates
waiting for the watcher lead from the map to the live content. When no watcher is running, a new one
will be sent the last entry of each key. That makes up for everything that was missed, except for
keys that have no entry any more, and for keys whose last value does not decode.

So the map converges as long as only markers expire, and only while a watcher runs that has
processed them.
-/
namespace Daedalus.Discovery

open Foundation

/-- What an operation makes of the value of its key. -/
def effect : KVOp → Option AgentEntry → Option AgentEntry
  | .put value, old => value.or old
  | .delete, _ | .purge, _ => none

def feed : Feed String AgentEntry (String × KVOp) where
  key := (·.1)
  effect u := effect u.2

/-- What an action does to the live content. -/
def noteContent (live : String → Option AgentEntry) : Act → String → Option AgentEntry
  | .put key value => feed.apply live (key, .put value)
  | .delete key | .expire key => feed.apply live (key, .delete)
  | .purge key => feed.apply live (key, .purge)
  | _ => live

/-- The keys that have an unexpired put, with the latest value that decodes. -/
def content (acts : List Act) : String → Option AgentEntry := acts.foldl noteContent fun _ => none

theorem content_snoc (acts : List Act) (a : Act) :
    content (acts ++ [a]) = noteContent (content acts) a := by
  simp [content]

/-- The updates that wait for the watcher. -/
def Stage.pending : Stage → List (String × KVOp)
  | .up updates => updates.filterMap id
  | _ => []

def Stage.running : Stage → Bool
  | .up _ => true
  | _ => false

/-- Nothing gets lost. Once the registry has begun its initial sync, only delete and purge markers
expire, and only while a watcher is running that has processed every update of their key. A value
that does not decode is put only while a watcher is running, and the watcher does not fail before it
has processed the updates of a key with such a value. -/
def Kept (s : State) : Act → Prop
  | .expire key => s.stage = .starting ∨
    s.stage.running ∧ (∀ op ∈ s.bucket.load key, op.isPut = false) ∧
      ∀ u ∈ s.stage.pending, u.1 ≠ key
  | .put _ none => s.stage.running
  | .fail => ∀ u ∈ s.stage.pending, s.bucket.load u.1 ≠ some (.put none)
  | _ => True

/-- The map together with what will be delivered gives the live content. -/
def CaughtUp (live : String → Option AgentEntry) (s : State) : Prop :=
  match s.stage with
  | .up _ => feed.replay s.registry.agents.load s.stage.pending = live
  | .closed => True
  | _ => ∀ k, s.bucket.load k = some (.put none) → s.registry.agents.load k = live k

structure Converging (live : String → Option AgentEntry) (s : State) : Prop where
  keyed : s.bucket.Keyed
  keyedAgents : s.registry.agents.Keyed
  stored : ∀ k op, s.bucket.load k = some op → op ≠ .put none → live k = effect op none
  gone : ∀ k, s.bucket.load k = none → live k = none ∧ s.registry.agents.load k = none ∧
    ∀ u ∈ s.stage.pending, u.1 ≠ k
  unread : s.stage = .starting → ∀ k, s.registry.agents.load k = none
  caughtUp : CaughtUp live s

section Steps

variable {live : String → Option AgentEntry} {s t : State} {a : Act}

theorem load_notice (dr : DynamicRegistry) (u : String × KVOp) :
    (dr.notice u).agents.load = feed.apply dr.agents.load u := by
  funext k
  obtain ⟨key, op⟩ := u
  cases op with
  | put value =>
    cases value with
    | none => simp [DynamicRegistry.notice, Feed.apply, feed, effect]
    | some ae =>
      simp [DynamicRegistry.notice, Feed.apply, feed, effect, Table.load_store,
        Function.update_apply]
  | delete | purge =>
    simp [DynamicRegistry.notice, Feed.apply, feed, effect, Table.load_delete,
      Function.update_apply]

theorem keyed_notice {dr : DynamicRegistry} (h : dr.agents.Keyed) (u : String × KVOp) :
    (dr.notice u).agents.Keyed := by
  obtain ⟨key, op⟩ := u
  cases op with
  | put value =>
    cases value with
    | none => exact h
    | some ae => exact h.store key ae
  | delete | purge => exact h.delete key

theorem effect_of_ne {op : KVOp} (h : op ≠ .put none) (old : Option AgentEntry) :
    effect op old = effect op none := by
  cases op with
  | put value =>
    cases value with
    | none => exact absurd rfl h
    | some ae => rfl
  | delete | purge => rfl

theorem pending_write (s : State) (key : String) (op : KVOp) :
    (s.write key op).stage.pending =
      if s.stage.running then s.stage.pending ++ [(key, op)] else s.stage.pending := by
  unfold State.write
  cases hs : s.stage <;> simp [Stage.pending, Stage.running]

theorem starting_write {key : String} {op : KVOp} :
    (s.write key op).stage = .starting ↔ s.stage = .starting := by
  unfold State.write
  cases s.stage <;> simp

theorem Converging.write (h : Converging live s) {key : String} {op : KVOp}
    (hok : op = .put none → s.stage.running) :
    Converging (feed.apply live (key, op)) (s.write key op) := by
  refine ⟨h.keyed.store key op, h.keyedAgents, ?_, ?_, ?_, ?_⟩
  · intro k op' hload hdecodes
    simp only [State.write, Table.load_store] at hload
    split_ifs at hload with hk
    · cases hload
      simp [Feed.apply, feed, hk, effect_of_ne hdecodes]
    · rw [Feed.apply_of_ne feed (Ne.symm hk), h.stored k op' hload hdecodes]
  · intro k hload
    simp only [State.write, Table.load_store] at hload
    split_ifs at hload with hk
    obtain ⟨dead, unknown, silent⟩ := h.gone k hload
    refine ⟨by rw [Feed.apply_of_ne feed (Ne.symm hk), dead], unknown, fun u hu => ?_⟩
    rw [pending_write] at hu
    split_ifs at hu
    · rcases List.mem_append.mp hu with hu | hu
      · exact silent u hu
      · rw [List.mem_singleton.mp hu]
        exact Ne.symm hk
    · exact silent u hu
  · exact fun starting => h.unread (starting_write.mp starting)
  · have caughtUp := h.caughtUp
    unfold CaughtUp at caughtUp ⊢
    rw [pending_write]
    unfold State.write
    cases hs : s.stage with
    | up updates =>
      simp only [hs] at caughtUp
      simp [Stage.running, Feed.replay_snoc, caughtUp]
    | closed => trivial
    | starting | syncing | down =>
      simp only [hs] at caughtUp
      intro k hload
      simp only [Table.load_store] at hload
      split_ifs at hload with hk
      · simp [hs, Stage.running] at hok
        exact absurd (Option.some.inj hload) hok
      · rw [Feed.apply_of_ne feed (Ne.symm hk)]
        exact caughtUp k hload

/-- Of an entry that may expire the registry has nothing, and will be sent nothing. -/
theorem Converging.forgotten (h : Converging live s) {key : String} (hok : Kept s (.expire key))
    (present : (s.bucket.load key).isSome) :
    s.registry.agents.load key = none ∧ ∀ u ∈ s.stage.pending, u.1 ≠ key := by
  rcases hok with starting | ⟨running, marker, silent⟩
  · exact ⟨h.unread starting key, by simp [starting, Stage.pending]⟩
  · refine ⟨?_, silent⟩
    obtain ⟨op, hload⟩ := Option.isSome_iff_exists.mp present
    have removed : live key = none := by
      have notPut := marker op hload
      cases op with
      | put value => cases notPut
      | delete | purge => exact h.stored key _ hload (by simp)
    have caughtUp := h.caughtUp
    cases hs : s.stage with
    | up updates =>
      simp only [CaughtUp, hs] at caughtUp
      rw [hs] at silent
      rw [← removed, ← caughtUp, Feed.replay_of_forall_ne feed silent]
    | _ => simp [hs, Stage.running] at running

theorem Converging.expire (h : Converging live s) {key : String} (hok : Kept s (.expire key))
    (present : (s.bucket.load key).isSome) :
    Converging (feed.apply live (key, .delete)) { s with bucket := s.bucket.delete key } := by
  obtain ⟨unknown, silent⟩ := h.forgotten hok present
  refine ⟨h.keyed.delete key, h.keyedAgents, ?_, ?_, h.unread, ?_⟩
  · intro k op hload hdecodes
    simp only [Table.load_delete] at hload
    split_ifs at hload with hk
    rw [Feed.apply_of_ne feed (Ne.symm hk), h.stored k op hload hdecodes]
  · intro k hload
    simp only [Table.load_delete] at hload
    split_ifs at hload with hk
    · subst hk
      exact ⟨by simp [Feed.apply, feed, effect], unknown, silent⟩
    · rw [Feed.apply_of_ne feed (Ne.symm hk)]
      exact h.gone k hload
  · have caughtUp := h.caughtUp
    unfold CaughtUp at caughtUp ⊢
    cases hs : s.stage with
    | up updates =>
      simp only [hs] at caughtUp silent
      funext k
      by_cases hk : k = key
      · subst hk
        rw [Feed.replay_of_forall_ne feed silent, unknown]
        simp [Feed.apply, feed, effect]
      · rw [Feed.apply_of_ne feed (Ne.symm hk), caughtUp]
    | closed => trivial
    | starting | syncing | down =>
      simp only [hs] at caughtUp
      intro k hload
      simp only [Table.load_delete] at hload
      split_ifs at hload with hk
      rw [Feed.apply_of_ne feed (Ne.symm hk)]
      exact caughtUp k hload

/-- A new watcher is sent the last entry of each key. -/
theorem Converging.watch (h : Converging live s) (hdown : s.stage = .down) :
    Converging live { s with stage := .up (s.bucket.reverse.map some ++ [none]) } := by
  have pending : (Stage.up (s.bucket.reverse.map some ++ [none])).pending = s.bucket.reverse := by
    simp [Stage.pending]
  have keyed : (s.bucket.reverse.map feed.key).Nodup := by
    have := h.keyed
    simpa [feed, Table.Keyed, List.map_reverse] using this
  have caughtUp := h.caughtUp
  simp only [CaughtUp, hdown] at caughtUp
  refine ⟨h.keyed, h.keyedAgents, h.stored, ?_, by simp, ?_⟩
  · intro k hload
    obtain ⟨dead, unknown, -⟩ := h.gone k hload
    refine ⟨dead, unknown, fun u hu => ?_⟩
    rw [pending, List.mem_reverse] at hu
    rintro rfl
    simp [h.keyed.load_iff.mpr hu] at hload
  · simp only [CaughtUp, pending]
    funext k
    cases hload : s.bucket.load k with
    | none =>
      obtain ⟨dead, unknown, -⟩ := h.gone k hload
      rw [Feed.replay_of_forall_ne feed, unknown, dead]
      rintro u hu rfl
      rw [List.mem_reverse] at hu
      simp [h.keyed.load_iff.mpr hu, feed] at hload
    | some op =>
      have hmem : (k, op) ∈ s.bucket.reverse := List.mem_reverse.mpr (Table.mem_of_load hload)
      have last := Feed.replay_of_mem feed (m := s.registry.agents.load) keyed hmem
      refine last.trans ?_
      by_cases hdecodes : op = .put none
      · subst hdecodes
        simpa [feed, effect] using caughtUp k hload
      · rw [h.stored k op hload hdecodes]
        exact effect_of_ne hdecodes _

theorem Converging.deliver (h : Converging live s) {update : Option (String × KVOp)}
    {rest : List (Option (String × KVOp))} (hup : s.stage = .up (update :: rest)) :
    Converging live { s with
      registry := update.elim s.registry s.registry.notice, stage := .up rest } := by
  have caughtUp := h.caughtUp
  simp only [CaughtUp, hup] at caughtUp
  cases update with
  | none =>
    refine ⟨h.keyed, h.keyedAgents, h.stored, ?_, by simp, ?_⟩
    · simpa [hup, Stage.pending] using h.gone
    · simpa [CaughtUp, Stage.pending] using caughtUp
  | some u =>
    refine ⟨h.keyed, keyed_notice h.keyedAgents u, h.stored, ?_, by simp, ?_⟩
    · intro k hload
      obtain ⟨dead, unknown, silent⟩ := h.gone k hload
      simp only [hup, Stage.pending, List.filterMap_cons, id_eq, List.mem_cons,
        forall_eq_or_imp] at silent
      refine ⟨dead, ?_, silent.2⟩
      rw [Option.elim, load_notice, Feed.apply_of_ne feed silent.1, unknown]
    · simpa [CaughtUp, Stage.pending, load_notice, Feed.replay] using caughtUp

/-- A failure forgets what was not processed; the next watcher is sent it again. -/
theorem Converging.fail (h : Converging live s) (hup : s.stage.running)
    (hok : ∀ u ∈ s.stage.pending, s.bucket.load u.1 ≠ some (.put none)) :
    Converging live { s with stage := .down } := by
  refine ⟨h.keyed, h.keyedAgents, h.stored, ?_, by simp, ?_⟩
  · intro k hload
    obtain ⟨dead, unknown, -⟩ := h.gone k hload
    exact ⟨dead, unknown, by simp [Stage.pending]⟩
  · have caughtUp := h.caughtUp
    intro k hload
    cases hs : s.stage with
    | up updates =>
      simp only [CaughtUp, hs] at caughtUp
      rw [hs] at hok
      rw [← caughtUp, Feed.replay_of_forall_ne feed]
      rintro u hu rfl
      exact hok u hu hload
    | _ => simp [hs, Stage.running] at hup

theorem Converging.get (h : Converging live s) {key : String} {rest : List String} {ok : Bool}
    (hsync : s.stage = .syncing (key :: rest)) :
    Converging live { s with
      registry := if ok then s.registry.sync key (s.bucket.load key) else s.registry
      stage := .syncing rest } := by
  have caughtUp := h.caughtUp
  simp only [CaughtUp, hsync] at caughtUp
  have unread : Converging live { s with stage := .syncing rest } := by
    refine ⟨h.keyed, h.keyedAgents, h.stored, ?_, by simp, caughtUp⟩
    simpa [hsync, Stage.pending] using h.gone
  cases ok with
  | false => exact unread
  | true =>
    simp only [if_true, DynamicRegistry.sync]
    split
    · rename_i ae hload
      refine ⟨h.keyed, h.keyedAgents.store key ae, h.stored, ?_, by simp, ?_⟩
      · intro k hk
        have hne : k ≠ key := by
          rintro rfl
          simp [hload] at hk
        simpa [Table.load_store, hne] using unread.gone k hk
      · intro k hk
        have hne : k ≠ key := by
          rintro rfl
          simp [hload] at hk
        simpa [Table.load_store, hne] using caughtUp k hk
    · exact unread

theorem Converging.step (h : Converging live s) (hok : Kept s a) (hs : step s a = some t) :
    Converging (noteContent live a) t := by
  cases a with
  | put key value =>
    cases hs
    refine h.write fun e => ?_
    cases e
    exact hok
  | delete key | purge key =>
    cases hs
    exact h.write nofun
  | expire key =>
    simp only [Discovery.step] at hs
    split_ifs at hs with present
    cases hs
    exact h.expire hok present
  | keys order =>
    simp only [Discovery.step] at hs
    split_ifs at hs with hstage
    cases hs
    have caughtUp := h.caughtUp
    simp only [CaughtUp, hstage.1] at caughtUp
    refine ⟨h.keyed, h.keyedAgents, h.stored, ?_, by simp, caughtUp⟩
    simpa [noteContent, hstage.1, Stage.pending] using h.gone
  | get ok =>
    simp only [Discovery.step] at hs
    split at hs
    · cases hs
      exact h.get ‹_›
    · cases hs
  | ready =>
    simp only [Discovery.step] at hs
    split_ifs at hs with hstage
    cases hs
    have caughtUp := h.caughtUp
    simp only [CaughtUp, hstage] at caughtUp
    refine ⟨h.keyed, h.keyedAgents, h.stored, ?_, by simp, caughtUp⟩
    simpa [noteContent, hstage, Stage.pending] using h.gone
  | watch ok =>
    simp only [Discovery.step] at hs
    split_ifs at hs with hstage hok
    · cases hs
      exact h.watch hstage
    · cases hs
      exact h
  | deliver =>
    simp only [Discovery.step] at hs
    split at hs
    · cases hs
      exact h.deliver ‹_›
    · cases hs
  | fail =>
    simp only [Discovery.step] at hs
    split at hs
    · rename_i updates hup
      cases hs
      exact h.fail (by rw [hup]; rfl) hok
    · cases hs
  | close =>
    simp only [Discovery.step] at hs
    have closed : Converging live { s with stage := .closed } := by
      refine ⟨h.keyed, h.keyedAgents, h.stored, fun k hload => ?_, by simp, trivial⟩
      obtain ⟨dead, unknown, -⟩ := h.gone k hload
      exact ⟨dead, unknown, by simp [Stage.pending]⟩
    split at hs
    · cases hs
      exact closed
    · cases hs
      exact closed
    · cases hs

end Steps

theorem Converging.new (fallback : Option Registry) :
    Converging (fun _ => none) (.new fallback) := by
  constructor <;> simp [State.new, Table.Keyed, Table.load, Stage.pending, CaughtUp]

/-! ## What the lookups answer -/

/-- The map holds the live content, and the lookups answer from it and from the fallback. -/
structure Serves (live : String → Option AgentEntry) (dr : DynamicRegistry) : Prop where
  agents : ∀ k, dr.agents.load k = live k
  findByName : ∀ name, dr.findByName name = (live name).or (dr.fallback.bind (·.findByName name))
  total : ∃ all, dr.AllReturns all
  all : ∀ all, dr.AllReturns all → ∀ e, e ∈ all ↔ (∃ k, live k = some e) ∨
    ∃ reg, dr.fallback = some reg ∧ e ∈ reg.agents ∧ live e.card.name = none
  route : ∀ all, dr.AllReturns all → ∀ skillID subject,
    DynamicRegistry.route all skillID = .ok subject →
      ∃ e ∈ all, e.hasSkill skillID ∧ e.queueSubject = subject

theorem exists_allReturns (dr : DynamicRegistry) : ∃ all, dr.AllReturns all := by
  let le : AgentEntry → AgentEntry → Bool := fun e e' => decide (e.card.name ≤ e'.card.name)
  refine ⟨dr.merged.mergeSort le, List.mergeSort_perm _ _, ?_⟩
  have trans : ∀ a b c, le a b → le b c → le a c := by
    intro a b c hab hbc
    simp only [le, decide_eq_true_eq] at hab hbc ⊢
    exact hab.trans hbc
  have total : ∀ a b, le a b || le b a := by
    intro a b
    simpa [le] using le_total a.card.name b.card.name
  have sorted := List.pairwise_mergeSort trans total dr.merged
  exact sorted.imp fun h => by simpa [le] using h

theorem serves_of_load {live : String → Option AgentEntry} {dr : DynamicRegistry}
    (keyed : dr.agents.Keyed) (h : ∀ k, dr.agents.load k = live k) : Serves live dr := by
  refine ⟨h, ?_, exists_allReturns dr, ?_, ?_⟩
  · intro name
    unfold DynamicRegistry.findByName
    rw [h]
    cases live name <;> rfl
  · rintro all ⟨perm, -⟩ e
    have dynamic : e ∈ dr.agents.map (·.2) ↔ ∃ k, live k = some e := by
      simp only [← h, keyed.load_iff, List.mem_map, Prod.exists, exists_eq_right]
    have unseen : e.card.name ∉ dr.agents.map (·.1) ↔ live e.card.name = none := by
      rw [Table.mem_keys_iff, h]
      simp
    rw [perm.mem_iff, DynamicRegistry.merged, List.mem_append, dynamic, List.mem_filter,
      decide_eq_true_iff, unseen]
    cases dr.fallback <;> simp [Registry.all]
  · intro all _ skillID subject hroute
    unfold DynamicRegistry.route DynamicRegistry.findBySkill at hroute
    cases hfound : all.filter (·.hasSkill skillID) with
    | nil => simp [hfound, Registry.routeTo] at hroute
    | cons e found =>
      have hmem : e ∈ all.filter (·.hasSkill skillID) := by simp [hfound]
      obtain ⟨hall, hskill⟩ := List.mem_filter.mp hmem
      rw [hfound] at hroute
      exact ⟨e, hall, hskill, Except.ok.inj hroute⟩

/-- In every run in which nothing gets lost, a registry whose watcher has processed everything it
was sent serves the live content of the bucket. -/
theorem cache_converges {fallback : Option Registry} {acts : List Act} {s : State}
    (hok : Meets step Kept (.new fallback) acts) (h : run step (.new fallback) acts = some s)
    (hup : s.stage = .up []) : Serves (content acts) s.registry := by
  have converging : Converging (content acts) s := hok.history
    (fun past s => Converging (content past) s)
    (fun past s a t hs hok hstep => content_snoc past a ▸ hs.step hok hstep) h
    (.new fallback)
  refine serves_of_load converging.keyedAgents fun k => ?_
  have caughtUp := converging.caughtUp
  simp only [CaughtUp, hup] at caughtUp
  rw [← caughtUp]
  rfl

instance (s : State) (a : Act) : Decidable (Kept s a) :=
  match a with
  | .expire key => inferInstanceAs (Decidable (s.stage = .starting ∨
    s.stage.running ∧ (∀ op ∈ s.bucket.load key, op.isPut = false) ∧
      ∀ u ∈ s.stage.pending, u.1 ≠ key))
  | .put _ none => inferInstanceAs (Decidable (s.stage.running = true))
  | .fail => inferInstanceAs (Decidable
    (∀ u ∈ s.stage.pending, s.bucket.load u.1 ≠ some (.put none)))
  | .put _ (some _) | .delete _ | .purge _ | .keys _ | .get _ | .ready | .watch _ | .deliver
  | .close => isTrue trivial

def agent (name : String) : AgentEntry where
  card := { name, description := name ++ " agent", version := "1.0.0",
            skills := [{ id := name, name }] }
  queueSubject := "agent.tasks." ++ name
  runtime := "container"
  acpPort := 8080

/-- A registry with an empty bucket whose watcher has seen the end of the initial delivery. -/
def started : List Act := [.keys [], .ready, .watch true, .deliver]

/-- The coder is removed and the reviewer registered while no watcher is running. The next one is
sent the marker of the coder, which then expires. -/
def removedWhileDown : List Act := started ++ ([
  .put "coder" (some (agent "coder")), .deliver, .fail, .delete "coder",
  .put "reviewer" (some (agent "reviewer")), .watch false, .watch true,
  .deliver, .deliver, .deliver,
  .expire "coder"] : List Act)

theorem cache_converges_removedWhileDown : ∃ s, run step (.new none) removedWhileDown = some s ∧
    s.registry.findByName "coder" = none ∧
      s.registry.findByName "reviewer" = some (agent "reviewer") := by
  have observed : (run step (.new none) removedWhileDown).map (·.stage) = some (.up []) := by
    decide +kernel
  obtain ⟨s, hs, hup⟩ := Option.map_eq_some_iff.mp observed
  have hok : Meets step Kept (.new none) removedWhileDown := by decide +kernel
  have serves := cache_converges hok hs hup
  have fallback : s.registry.fallback = none := by
    have observed : (run step (.new none) removedWhileDown).map (·.registry.fallback) =
        some none := by decide +kernel
    simpa [hs] using observed
  refine ⟨s, hs, ?_, ?_⟩
  · rw [serves.findByName, fallback]
    decide
  · rw [serves.findByName, fallback]
    decide

/-- The coder stops registering and its entry expires while the watcher is running. -/
def expired : List Act := started ++ ([
  .put "coder" (some (agent "coder")), .deliver, .expire "coder"] : List Act)

/-- The coder is removed while no watcher is running, and its marker expires before the next one. -/
def expiredMarker : List Act := started ++ ([
  .put "coder" (some (agent "coder")), .deliver, .fail, .delete "coder", .expire "coder",
  .watch true, .deliver] : List Act)

/-- The watcher has processed everything, the bucket has no coder, and tasks are routed to it. -/
def Stale (acts : List Act) : Prop :=
  ∃ s, run step (.new none) acts = some s ∧ s.stage = .up [] ∧ content acts "coder" = none ∧
    s.registry.findByName "coder" = some (agent "coder") ∧ s.registry.AllReturns [agent "coder"] ∧
      DynamicRegistry.route [agent "coder"] "coder" = .ok "agent.tasks.coder" ∧
        ¬ Serves (content acts) s.registry

theorem stale_agents : Stale expired ∧ Stale expiredMarker := by
  have stale : ∀ acts, content acts "coder" = none →
      (run step (.new none) acts).map (fun s => (s.stage, s.registry.agents.load "coder",
        decide (s.registry.AllReturns [agent "coder"]))) =
        some (.up [], some (agent "coder"), true) → Stale acts := by
    intro acts gone observed
    obtain ⟨s, hs, e⟩ := Option.map_eq_some_iff.mp observed
    simp only [Prod.mk.injEq, decide_eq_true_iff] at e
    obtain ⟨hup, hload, hall⟩ := e
    refine ⟨s, hs, hup, gone, by simp [DynamicRegistry.findByName, hload], hall, by decide, ?_⟩
    intro serves
    have := serves.agents "coder"
    simp [hload, gone] at this
  exact ⟨stale expired (by decide) (by decide +kernel),
    stale expiredMarker (by decide) (by decide +kernel)⟩

end Daedalus.Discovery
