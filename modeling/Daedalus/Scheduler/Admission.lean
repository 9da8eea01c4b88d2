import Daedalus.Scheduler.Safety

/-!
# Which requests are admitted

A `Schedule` call from its first line. Cycles are looked for twice: `AddEdge` refuses an edge that
would close one, so the three-colour search of `Validate` runs on a graph without cycles and never
meets a gray node. What is left to show is that neither check refuses too much: along the loops
that add edges the graph stays inside the dependency relation of the request, so it has no cycle.
-/
namespace Daedalus.Scheduler

open Foundation Relation

namespace ScheduleRequest

/-- What `Schedule` must refuse. The cycle may be a self-dependency. -/
def IllFormed (req : ScheduleRequest) : Prop :=
  req.tasks = [] ∨ (∃ t ∈ req.tasks, t.id = "") ∨ ¬ req.ids.Nodup ∨
    (∃ t ∈ req.tasks, ∃ a ∈ t.dependsOn, a ∉ req.ids) ∨
    ∃ id, TransGen (fun a b => ∃ t ∈ req.tasks, t.id = b ∧ a ∈ t.dependsOn) id id

/-- The same tasks in any order, each with the same dependencies in any order and any number. -/
def SameTasks (req req' : ScheduleRequest) : Prop :=
  ∃ tasks, tasks.Perm req'.tasks ∧
    List.Forall₂ (fun t t' => t.id = t'.id ∧ ∀ a, a ∈ t.dependsOn ↔ a ∈ t'.dependsOn)
      req.tasks tasks

end ScheduleRequest

/-- A `Schedule` call: before validation, returned with a validation error and no result, or in
its main loop. -/
inductive Call where
  | entered
  | rejected (err : ScheduleError)
  | admitted (s : State)

inductive CallAct (req : ScheduleRequest) where
  /-- Everything up to the main loop. -/
  | validate (order : req.MapOrder)
  | loop (a : Act)

def Call.step (req : ScheduleRequest) : Call → CallAct req → Option Call
  | .entered, .validate order =>
    match req.validate order with
    | .error err => some (.rejected err)
    | .ok d => some (.admitted (start d))
  | .admitted s, .loop a => (Scheduler.step req s a).map .admitted
  | _, _ => none

/-! ## Requests that pass -/

variable {req : ScheduleRequest}

/-- Distinct non-empty IDs are indexed without an error. -/
theorem index_succeeds (nodup : req.ids.Nodup) (nonempty : "" ∉ req.ids) :
    ∃ m, req.tasks.zipIdx.foldlM ScheduleRequest.indexTask (fun _ => none) = .ok m ∧
      ∀ id, (m id).isSome ↔ id ∈ req.ids := by
  have ids : req.ids = req.tasks.zipIdx.map (·.1.id) := by
    have fst : (fun entry : ScheduledTask × ℕ => entry.1.id) = (·.id) ∘ Prod.fst := rfl
    rw [fst, ← List.map_map, List.zipIdx_map_fst]
    rfl
  rw [ids] at nodup nonempty ⊢
  obtain ⟨m, hm, indexed⟩ : ∃ m, req.tasks.zipIdx.foldlM ScheduleRequest.indexTask (fun _ => none) =
      .ok m ∧ Indexed (req.tasks.zipIdx.map (·.1.id)) m := by
    apply foldlM_succeeds fun (past : List (ScheduledTask × ℕ)) m => Indexed (past.map (·.1.id)) m
    · rintro past ⟨t, i⟩ rest m split indexed
      rw [← split, List.map_append, List.map_cons] at nodup nonempty
      have hid : t.id ≠ "" := fun e => nonempty (by simp [← e])
      have hnew : ¬ (m t.id).isSome := by
        rw [indexed.keys]
        grind
      have hok : ScheduleRequest.indexTask m (t, i) = .ok (Function.update m t.id (some t)) := by
        simp [ScheduleRequest.indexTask, hid, hnew]
      exact ⟨_, hok, indexTask_indexed indexed hok⟩
    · exact ⟨List.nodup_nil, by simp, by simp⟩
  exact ⟨m, hm, indexed.keys⟩

/-- The graph after the edges of some of the request's dependencies. -/
structure Within (req : ScheduleRequest) (d : DAG) : Prop where
  nodes : ∀ id, id ∈ d.nodes ↔ id ∈ req.ids
  edges : ∀ a b, d.Edge a b → a ∈ req.deps b

/-- An edge of the request is accepted: a path back would close a cycle of dependencies. -/
theorem Within.addEdge {d : DAG} (h : Within req d) (acyclic : Acyclic fun a b => a ∈ req.deps b)
    {dep id : String} (hdep : dep ∈ req.deps id) (known : dep ∈ req.ids) (hid : id ∈ req.ids) :
    ∃ d', d.addEdge dep id = .ok d' ∧ Within req d' := by
  have hne : dep ≠ id := by
    rintro rfl
    exact acyclic dep (.single hdep)
  have hpath : ¬ d.reachable id dep := by
    rw [DAG.reachable_iff]
    intro path
    have lifted : ReflTransGen (fun a b => a ∈ req.deps b) id dep :=
      ReflTransGen.mono h.edges _ _ path
    exact acyclic dep (TransGen.head' hdep lifted)
  have hnodes := (h.nodes dep).mpr known
  have hnodes' := (h.nodes id).mpr hid
  have hok : ∃ d', d.addEdge dep id = .ok d' := by
    simp [DAG.addEdge, hne, hnodes, hnodes', hpath]
  obtain ⟨d', hok⟩ := hok
  obtain ⟨_, _, _, _, hn, _, he, _⟩ := DAG.addEdge_ok hok
  refine ⟨d', hok, ?_, ?_⟩
  · rw [hn]
    exact h.nodes
  · intro a b hab
    rw [DAG.Edge, he, Function.update_apply] at hab
    split_ifs at hab with e
    · subst e
      rcases List.mem_append.mp hab with hold | hnew
      · exact h.edges a b hold
      · rw [List.mem_singleton.mp hnew]
        exact hdep
    · exact h.edges a b hab

/-- Every well-formed request passes validation, whatever the order of the maps. -/
theorem validate_succeeds (valid : req.Valid) (nonempty : req.tasks ≠ []) (order : req.MapOrder) :
    ∃ d, req.validate order = .ok d := by
  obtain ⟨m, hindex, keys⟩ := index_succeeds valid.nodup valid.nonempty
  obtain ⟨he, _, _, hn⟩ := foldl_addNode order.tasks DAG.new
  have hn := hn (order.tasks_perm.nodup_iff.mpr valid.nodup) (by simp [DAG.new])
  obtain ⟨d, hadd, within⟩ : ∃ d, req.tasks.foldlM (ScheduleRequest.addDependencies m)
      (order.tasks.foldl DAG.addNode DAG.new) = .ok d ∧ Within req d := by
    apply foldlM_succeeds (fun _ d => Within req d)
    · intro past t rest d split within
      have ht : t ∈ req.tasks := by simp [← split]
      have hdeps := ScheduleRequest.deps_of_mem valid.nodup ht
      apply foldlM_succeeds (fun _ d => Within req d)
      · intro past dep rest d split within
        have hdep : dep ∈ req.deps t.id := by simp [hdeps, ← split]
        have known := valid.known dep t.id hdep
        obtain ⟨d', hok, within⟩ := within.addEdge valid.acyclic hdep known (List.mem_map_of_mem ht)
        have hkey : (m dep).isNone = false := by
          rw [← Option.not_isSome, (keys dep).mpr known]
          rfl
        exact ⟨d', by simp [ScheduleRequest.addDependency, hkey, hok], within⟩
      · exact within
    · refine ⟨fun id => ?_, fun a b hab => ?_⟩
      · rw [hn]
        simp [DAG.new, order.tasks_perm.mem_iff]
      · rw [DAG.Edge, he] at hab
        exact absurd hab List.not_mem_nil
  have acyclic : Acyclic d.Edge := fun a ha => valid.acyclic a (TransGen.mono within.edges _ _ ha)
  have hnodes : d.nodes ≠ [] := by
    obtain ⟨t, ht⟩ := List.exists_mem_of_ne_nil _ nonempty
    exact List.ne_nil_of_mem ((within.nodes t.id).mpr (List.mem_map_of_mem ht))
  have all : ∀ id, id ∈ order.nodes ↔ id ∈ d.nodes := fun id =>
    order.nodes_perm.mem_iff.trans (within.nodes id).symm
  have hval : d.validate order.nodes = .ok () := by
    obtain ⟨hok, _⟩ | ⟨id, _, cycle⟩ := DAG.validate_cases all hnodes
    · exact hok
    · exact absurd cycle (acyclic id)
  have hlen : req.tasks.length ≠ 0 := by simpa using nonempty
  refine ⟨d, ?_⟩
  simp only [ScheduleRequest.validate, if_neg hlen, bind_eq_ok]
  exact ⟨m, hindex, d, hadd, by rw [hval]; rfl⟩

/-- A request is ill-formed exactly when it is empty or not valid. -/
theorem ScheduleRequest.illFormed_iff (req : ScheduleRequest) :
    req.IllFormed ↔ req.tasks = [] ∨ ¬ req.Valid := by
  have relation : (fun a b => ∃ t ∈ req.tasks, t.id = b ∧ a ∈ t.dependsOn) =
      fun a b => a ∈ req.deps b := by
    funext a b
    simp [deps, and_assoc]
  have named : (∃ t ∈ req.tasks, t.id = "") ↔ "" ∈ req.ids := by
    simp [ids]
  have known : (∃ t ∈ req.tasks, ∃ a ∈ t.dependsOn, a ∉ req.ids) ↔
      ∃ a b, a ∈ req.deps b ∧ a ∉ req.ids := by
    constructor
    · rintro ⟨t, ht, a, ha, hout⟩
      exact ⟨a, t.id, by simpa [deps] using ⟨t, ⟨ht, rfl⟩, ha⟩, hout⟩
    · rintro ⟨a, b, hab, hout⟩
      obtain ⟨t, ht, _, ha⟩ := mem_deps hab
      exact ⟨t, ht, a, ha, hout⟩
  unfold IllFormed
  rw [relation, named, known]
  refine or_congr_right ⟨?_, ?_⟩
  · rintro (hname | hdup | ⟨a, b, hab, hout⟩ | ⟨a, ha⟩) valid
    · exact valid.nonempty hname
    · exact hdup valid.nodup
    · exact hout (valid.known a b hab)
    · exact valid.acyclic a ha
  · intro invalid
    by_contra! h
    obtain ⟨hname, hnodup, hknown, hacyclic⟩ := h
    exact invalid ⟨hnodup, hname, hknown, hacyclic⟩

/-- Validation fails on the ill-formed requests and on no others. -/
theorem validate_error_iff (order : req.MapOrder) :
    (∃ err, req.validate order = .error err) ↔ req.IllFormed := by
  rw [req.illFormed_iff]
  constructor
  · rintro ⟨err, herr⟩
    by_contra! h
    obtain ⟨d, hd⟩ := validate_succeeds h.2 h.1 order
    rw [herr] at hd
    cases hd
  · intro ill
    cases hv : req.validate order with
    | error err => exact ⟨err, rfl⟩
    | ok d =>
      rcases ill with hempty | invalid
      · simp [ScheduleRequest.validate, hempty] at hv
        cases hv
      · exact absurd (validate_ok hv).1 invalid

/-- What makes a request valid is its set of IDs and its dependency relation. -/
theorem ScheduleRequest.Valid.transfer {req' : ScheduleRequest} (valid : req.Valid)
    (hids : req.ids.Perm req'.ids) (hdeps : ∀ a b, a ∈ req.deps b ↔ a ∈ req'.deps b) :
    req'.Valid where
  nodup := hids.nodup_iff.mp valid.nodup
  nonempty hmem := valid.nonempty (hids.mem_iff.mpr hmem)
  known a b hab := hids.mem_iff.mp (valid.known a b ((hdeps a b).mpr hab))
  acyclic a ha := valid.acyclic a (TransGen.mono (fun a b => (hdeps a b).mpr) _ _ ha)

namespace ScheduleRequest.SameTasks

variable {req' : ScheduleRequest}

theorem ids_perm (h : req.SameTasks req') : req.ids.Perm req'.ids := by
  obtain ⟨tasks, perm, same⟩ := h
  have ids : req.ids = tasks.map (·.id) := by
    unfold ids
    clear perm
    generalize req.tasks = before at same
    induction same with
    | nil => rfl
    | cons head _ ih => rw [List.map_cons, List.map_cons, ih, head.1]
  rw [ids]
  exact perm.map _

theorem mem_deps (h : req.SameTasks req') (a b : String) : a ∈ req.deps b ↔ a ∈ req'.deps b := by
  obtain ⟨tasks, perm, same⟩ := h
  have deps : (∃ t ∈ req.tasks, t.id = b ∧ a ∈ t.dependsOn) ↔
      ∃ t ∈ tasks, t.id = b ∧ a ∈ t.dependsOn := by
    clear perm
    generalize req.tasks = before at same
    induction same with
    | nil => rfl
    | cons head _ ih => simp only [List.exists_mem_cons_iff, ih, head.1, head.2]
  simpa [ScheduleRequest.deps, and_assoc, perm.mem_iff] using deps

/-- The order of tasks and dependencies plays no role. -/
theorem illFormed_iff (h : req.SameTasks req') : req.IllFormed ↔ req'.IllFormed := by
  have hids := h.ids_perm
  have valid : req.Valid ↔ req'.Valid :=
    ⟨fun v => v.transfer hids h.mem_deps,
      fun v => v.transfer hids.symm fun a b => (h.mem_deps a b).symm⟩
  have empty : req.tasks = [] ↔ req'.tasks = [] := by
    have := hids.length_eq
    simp only [ids, List.length_map] at this
    rw [← List.length_eq_zero_iff, ← List.length_eq_zero_iff, this]
  rw [req.illFormed_iff, req'.illFormed_iff, valid, empty]

end ScheduleRequest.SameTasks

/-! ## The call -/

/-- The task a step of the call calls `Dispatch` for. -/
def CallAct.dispatched : CallAct req → Option String
  | .validate _ => none
  | .loop a => a.dispatched

/-- What a call has done when it is where it is. -/
def Call.After (acts : List (CallAct req)) : Call → Prop
  | .entered => acts = []
  | .rejected err => ∃ order, acts = [.validate order] ∧ req.validate order = .error err
  | .admitted s => ∃ order d moves, acts = .validate order :: moves.map .loop ∧
    req.validate order = .ok d ∧ run (Scheduler.step req) (start d) moves = some s

theorem Call.After.step {past : List (CallAct req)} {c c' : Call} {a : CallAct req}
    (h : c.After past) (hs : c.step req a = some c') : c'.After (past ++ [a]) := by
  cases c with
  | entered =>
    obtain rfl : past = [] := h
    cases a with
    | validate order =>
      simp only [Call.step] at hs
      split at hs
      · rename_i err herr
        cases hs
        exact ⟨order, rfl, herr⟩
      · rename_i d hd
        cases hs
        exact ⟨order, d, [], rfl, hd, rfl⟩
    | loop a => cases hs
  | rejected err => cases a <;> cases hs
  | admitted s =>
    obtain ⟨order, d, moves, rfl, hd, hrun⟩ := h
    cases a with
    | validate order => cases hs
    | loop a =>
      obtain ⟨t, ht, rfl⟩ := Option.map_eq_some_iff.mp hs
      exact ⟨order, d, moves ++ [a], by simp, hd, run_snoc.mpr ⟨s, hrun, ht⟩⟩

theorem Call.After.rejected_iff {acts : List (CallAct req)} {c : Call} (h : c.After acts)
    (left : c ≠ .entered) : (∃ err, c = .rejected err) ↔ req.IllFormed := by
  cases c with
  | entered => exact absurd rfl left
  | rejected err =>
    obtain ⟨order, _, herr⟩ := h
    simpa using (validate_error_iff order).mp ⟨err, herr⟩
  | admitted s =>
    obtain ⟨order, d, _, _, hd, _⟩ := h
    rw [← validate_error_iff order, hd]
    simp

theorem Call.after {acts : List (CallAct req)} {c : Call}
    (h : run (Call.step req) .entered acts = some c) : c.After acts :=
  run_history (fun past c => c.After past) (fun _ _ _ _ hc hs => hc.step hs) h rfl

/-- `Schedule` rejects exactly the ill-formed requests. A call that has left its validation was
rejected, without a result, if and only if the request is ill-formed; a rejected call has called
`Dispatch` for no task; and two requests that differ in the order of tasks and in the order and
number of their dependencies only get the same answer. -/
theorem schedule_rejects_iff {acts : List (CallAct req)} {c : Call}
    (h : run (Call.step req) .entered acts = some c) (left : c ≠ .entered) :
    ((∃ err, c = .rejected err) ↔ req.IllFormed) ∧
      ((∃ err, c = .rejected err) → acts.filterMap CallAct.dispatched = []) ∧
      ∀ req', req.SameTasks req' → ∀ acts' c', run (Call.step req') .entered acts' = some c' →
        c' ≠ .entered → ((∃ err, c = .rejected err) ↔ ∃ err, c' = .rejected err) := by
  refine ⟨(Call.after h).rejected_iff left, ?_, ?_⟩
  · rintro ⟨err, rfl⟩
    obtain ⟨order, rfl, _⟩ := Call.after h
    rfl
  · intro req' same acts' c' h' left'
    rw [(Call.after h).rejected_iff left, (Call.after h').rejected_iff left', same.illFormed_iff]

/-- Three tasks that wait for each other. -/
def circle : ScheduleRequest where
  tasks := [
    { id := "a", dependsOn := ["c"] }, { id := "b", dependsOn := ["a", "a"] },
    { id := "c", dependsOn := ["b"] }]

def circleOrder : circle.MapOrder where
  tasks := ["b", "a", "c"]
  nodes := ["c", "a", "b"]
  tasks_perm := by decide
  nodes_perm := by decide

theorem schedule_rejects_iff_circle :
    run (Call.step circle) .entered [.validate circleOrder] =
      some (.rejected (.dag (.cycle "b" "c"))) ∧ circle.IllFormed := by
  have rejected : circle.validate circleOrder = .error (.dag (.cycle "b" "c")) := by
    have : (circle.validate circleOrder).map (fun _ => ()) = .error (.dag (.cycle "b" "c")) := by
      decide
    cases h : circle.validate circleOrder with
    | error err =>
      rw [h] at this
      cases this
      rfl
    | ok d =>
      rw [h] at this
      cases this
  have h : run (Call.step circle) .entered [.validate circleOrder] =
      some (.rejected (.dag (.cycle "b" "c"))) := by
    simp [run, Call.step, rejected]
  exact ⟨h, (schedule_rejects_iff h (by simp)).1.mp ⟨_, rfl⟩⟩

end Daedalus.Scheduler
